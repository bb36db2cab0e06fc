import GoIpc.OpenOrCreate

/-!
# The named-object namespace

The entry of one name in the OS namespace that every opener of the package works on
(`shm_open`, `mq_open`, a lock's backing object): absent, or present with an incarnation.
Incarnations are numbered in the order they are created, so an incarnation "that did not exist
before" is one whose number is not below the counter `next`.

* `Store.opener`: an exclusive create fails with `os.IsExist` iff the name is present and
  otherwise creates a new incarnation; a call without `O_CREATE` fails with `os.IsNotExist`
  iff the name is absent and otherwise opens the present incarnation.
* `Store.opener_cases`: every call leaves the entry as it was or creates a new incarnation
  under an absent name; `Store.opener_err` a failed call leaves it as it was.
-/

namespace GoIpc

/-- The entry of one name: `none` when absent, `some n` when incarnation `n` is present; `next`
is the number the next incarnation gets, above every incarnation created so far. -/
structure Store where
  entry : Option Nat
  next : Nat
  entry_lt : ∀ n ∈ entry, n < next

namespace Store

/-- A new incarnation under the name. -/
def fresh (s : Store) : Store := ⟨some s.next, s.next + 1, by simp⟩

/-- Another party destroys the object: the name is unlinked. -/
def destroy (s : Store) : Store := ⟨none, s.next, by simp⟩

/-- Another party creates the object: a new incarnation if the name is absent. -/
def create (s : Store) : Store := if s.entry = none then s.fresh else s

/-- An opener call on this entry: the error it returns and the entry after it. An exclusive
create fails with `EEXIST` when the name is present and creates a new incarnation when it is
absent; `O_CREATE` alone opens or creates; without `O_CREATE` the call opens the present
incarnation and fails with `ENOENT` when the name is absent. -/
def opener (s : Store) (flags : BitVec 64) : Option Error × Store :=
  if Exclusive flags then
    if s.entry = none then (none, s.fresh) else (some .exist, s)
  else if flags &&& Os.O_CREATE ≠ 0 then
    if s.entry = none then (none, s.fresh) else (none, s)
  else
    if s.entry = none then (some .notExist, s) else (none, s)

@[simp] theorem fresh_entry (s : Store) : s.fresh.entry = some s.next := rfl

@[simp] theorem fresh_next (s : Store) : s.fresh.next = s.next + 1 := rfl

@[simp] theorem destroy_entry (s : Store) : s.destroy.entry = none := rfl

@[simp] theorem destroy_next (s : Store) : s.destroy.next = s.next := rfl

/-- An incarnation at or above `next` is not present. -/
theorem entry_ne_of_le {s : Store} {n : Nat} (h : s.next ≤ n) : s.entry ≠ some n := fun he =>
  absurd (s.entry_lt _ he) (Nat.not_lt.2 h)

theorem opener_exclusive {s : Store} {f : BitVec 64} (hf : Exclusive f) :
    s.opener f = if s.entry = none then (none, s.fresh) else (some .exist, s) := by
  simp [opener, hf]

theorem not_exclusive {f : BitVec 64} (hf : f &&& Os.O_CREATE = 0) : ¬Exclusive f := by
  intro hx
  have hC : Os.O_CREATE.getLsbD 6 = true := by decide
  have h1 := congrArg (fun x => x.getLsbD 6) hx
  have h2 := congrArg (fun x => x.getLsbD 6) hf
  simp only [BitVec.getLsbD_and, BitVec.getLsbD_or, hC, Bool.true_or, Bool.or_true,
    Bool.and_true, BitVec.getLsbD_zero] at h1 h2
  rw [h1] at h2
  cases h2

theorem opener_open {s : Store} {f : BitVec 64} (hf : f &&& Os.O_CREATE = 0) :
    s.opener f = if s.entry = none then (some .notExist, s) else (none, s) := by
  simp [opener, not_exclusive hf, hf]

/-- Every opener call leaves the entry as it was, or creates a new incarnation under an
absent name without an error. -/
theorem opener_cases (s : Store) (f : BitVec 64) :
    (s.opener f).2 = s ∨ (s.entry = none ∧ s.opener f = (none, s.fresh)) := by
  unfold opener
  split_ifs with h1 h2 h3 <;> simp_all

/-- A failed call leaves the entry as it was. -/
theorem opener_err {s : Store} {f : BitVec 64} (h : (s.opener f).1 ≠ none) :
    (s.opener f).2 = s := by
  rcases opener_cases s f with h' | ⟨-, h'⟩
  · exact h'
  · rw [h'] at h
    exact absurd rfl h

theorem create_cases (s : Store) : s.create = s ∨ (s.entry = none ∧ s.create = s.fresh) := by
  unfold create
  split_ifs with h <;> simp [h]

end Store

end GoIpc
