import GoIpc.Run
import Mathlib.Data.List.Pairwise

/-!
# Who created the object

Processes each run `openOrCreateFile F mode` on the same name, with any modes, interleaved
with destroys and creates by other parties (`race`). Whatever the schedule:

* a process that returned `(true, e)` has `e = nil`, and its last call was an exclusive create
  that found the name absent and created incarnation `next`, present in no state of the run
  before that call;
* a process that returned `(false, nil)` last opened, without `O_CREATE`, the incarnation
  present at that moment, and none of its calls changed the namespace;
* two processes that returned `created = true` created different incarnations
  (`openOrCreateFile_incarnations`).

The proof reads `openOrCreateFile_reflects` off each process (`ProcInv`) and the namespace
facts off the trace (`TraceInv`).
-/

namespace GoIpc

namespace System

variable {sys : System} {i : Nat}

/-- The last step of process `i`. -/
def lastAct (sys : System) (i : Nat) : Option Act := (sys.acts i).getLast?

theorem mem_acts {a : Act} : a ∈ sys.acts i ↔ a ∈ sys.trace ∧ a.party = .proc i a.call := by
  simp [acts, Act.isBy_iff]

/-- The last call of process `i` is the call of its last step. -/
theorem lastAct_of_log {rest : List Call} {c : Call} (h : sys.log i = rest ++ [c]) :
    ∃ a, sys.lastAct i = some a ∧ a ∈ sys.trace ∧ a.party = .proc i c := by
  have hl : (sys.log i).getLast? = some c := by simp [h]
  rw [log, List.getLast?_map] at hl
  obtain ⟨a, ha, rfl⟩ := Option.map_eq_some'.1 hl
  exact ⟨a, ha, mem_acts.1 (List.mem_of_getLast?_eq_some ha)⟩

variable {s0 : Store}

theorem legal_proc (hT : TraceInv s0 sys) {a : Act} {c : Call} (ha : a ∈ sys.trace)
    (hp : a.party = .proc i c) : a.before.opener c.flags = (c.err, a.after) := by
  have := hT.legal a ha
  rwa [Act.Legal, hp] at this

/-- A process's exclusive create found the name present, failed with `os.IsExist` and left the
entry as it was, or found it absent, succeeded and created incarnation `next`. -/
theorem exclusive_step (hT : TraceInv s0 sys) {a : Act} {f : BitVec 64} {e : Option Error}
    (ha : a ∈ sys.trace) (hp : a.party = .proc i ⟨f, e⟩) (hf : Exclusive f) :
    (e = some .exist ∧ a.before.entry ≠ none ∧ a.after = a.before) ∨
      (e = none ∧ a.before.entry = none ∧ a.after = a.before.fresh) := by
  have hl := legal_proc hT ha hp
  rw [Store.opener_exclusive hf] at hl
  split_ifs at hl with hb
  · exact .inr ⟨(Prod.mk.inj hl).1.symm, hb, (Prod.mk.inj hl).2.symm⟩
  · exact .inl ⟨(Prod.mk.inj hl).1.symm, hb, (Prod.mk.inj hl).2.symm⟩

/-- A process's open without `O_CREATE` left the entry as it was, and found the name absent and
failed with `os.IsNotExist`, or found it present and succeeded. -/
theorem open_step (hT : TraceInv s0 sys) {a : Act} {f : BitVec 64} {e : Option Error}
    (ha : a ∈ sys.trace) (hp : a.party = .proc i ⟨f, e⟩) (hf : f &&& Os.O_CREATE = 0) :
    a.after = a.before ∧
      ((e = some .notExist ∧ a.before.entry = none) ∨ (e = none ∧ a.before.entry ≠ none)) := by
  have hl := legal_proc hT ha hp
  rw [Store.opener_open hf] at hl
  split_ifs at hl with hb
  · exact ⟨(Prod.mk.inj hl).2.symm, .inl ⟨(Prod.mk.inj hl).1.symm, hb⟩⟩
  · exact ⟨(Prod.mk.inj hl).2.symm, .inr ⟨(Prod.mk.inj hl).1.symm, hb⟩⟩

/-- Every state of the run before step `a`, the start included, holds no incarnation numbered
`a.before.next` or above. -/
theorem absent_before (hT : TraceInv s0 sys) {pre post : List Act} {a : Act}
    (ht : sys.trace = pre ++ a :: post) : s0.entry ≠ some a.before.next ∧
      ∀ b ∈ pre, b.before.entry ≠ some a.before.next ∧ b.after.entry ≠ some a.before.next := by
  have hpw := hT.ordered
  rw [ht, List.pairwise_append] at hpw
  refine ⟨Store.entry_ne_of_le (hT.start a (by simp [ht])), fun b hb => ?_⟩
  have hba := (hpw.2.2 b hb a (List.mem_cons_self _ _)).1
  have hbl := (hT.legal b (by simp [ht, hb])).next_le
  exact ⟨Store.entry_ne_of_le (Nat.le_trans hbl hba), Store.entry_ne_of_le hba⟩

end System

/-- Processes `openOrCreateFile F mode`, one for each mode, started on the entry `s` and run
through the events `evs`. -/
def race (F : OpenFlags) (s : Store) (modes : List (BitVec 64)) (evs : List Event) : System :=
  (System.init s (modes.map (openOrCreateFile F))).run evs

theorem race_procInv (F : OpenFlags) (s : Store) (modes : List (BitVec 64)) (evs : List Event)
    (i : Nat) : System.ProcInv (fun _ _ => True) Reflects i (race F s modes evs) := by
  refine (System.ProcInv.init fun p hp => ?_).run evs
  rw [List.getElem?_map] at hp
  obtain ⟨mode, -, rfl⟩ := Option.map_eq_some'.1 hp
  exact openOrCreateFile_reflects F mode

theorem race_traceInv (F : OpenFlags) (s : Store) (modes : List (BitVec 64)) (evs : List Event) :
    System.TraceInv s (race F s modes evs) :=
  (System.TraceInv.init s _).run evs

section Race

variable {F : OpenFlags} {s : Store} {modes : List (BitVec 64)} {evs : List Event} {i : Nat}

/-- A process that returned `created = true` has no error, and its last step was an exclusive
create that found the name absent and made a new incarnation. -/
theorem race_created_last {e : Option Error}
    (h : (race F s modes evs).procs[i]? = some (.ret (true, e))) :
    e = none ∧ ∃ a f, (race F s modes evs).lastAct i = some a ∧ a ∈ (race F s modes evs).trace ∧
      a.party = .proc i ⟨f, none⟩ ∧ Exclusive f ∧ a.before.entry = none ∧
      a.after = a.before.fresh := by
  obtain ⟨f, rest, hlog, hf, he, -⟩ := (race_procInv F s modes evs i).2 _ h
  obtain ⟨a, hla, ha, hp⟩ := System.lastAct_of_log hlog
  obtain ⟨rfl, hb, haf⟩ :=
    (System.exclusive_step (race_traceInv F s modes evs) ha hp hf).resolve_left
    fun h => by rw [h.1] at he; cases he
  exact ⟨rfl, a, f, hla, ha, hp, hf, hb, haf⟩

/-- A process that returned `(false, nil)` last opened, without `O_CREATE`, the incarnation
present at that moment, and none of its calls changed the namespace. -/
theorem race_opened (h : (race F s modes evs).procs[i]? = some (.ret (false, none))) :
    ∃ a f n, (race F s modes evs).lastAct i = some a ∧ a.party = .proc i ⟨f, none⟩ ∧
      f &&& Os.O_CREATE = 0 ∧ a.before.entry = some n ∧ a.after = a.before ∧
      ∀ b ∈ (race F s modes evs).acts i, b.after = b.before := by
  have hT := race_traceInv F s modes evs
  obtain ⟨f, rest, hlog, hf, hrest⟩ := (race_procInv F s modes evs i).2 _ h
  obtain ⟨a, hla, ha, hp⟩ := System.lastAct_of_log hlog
  obtain ⟨haf, ⟨he, -⟩ | ⟨-, hb⟩⟩ := System.open_step hT ha hp hf
  · cases he
  obtain ⟨n, hn⟩ := Option.ne_none_iff_exists'.1 hb
  refine ⟨a, f, n, hla, hp, hf, hn, haf, fun b hb' => ?_⟩
  obtain ⟨hbt, hbp⟩ := System.mem_acts.1 hb'
  have hbl := System.legal_proc hT hbt hbp
  have hbc : b.call ∈ (race F s modes evs).log i := List.mem_map_of_mem _ hb'
  rw [hlog, List.mem_append, List.mem_singleton] at hbc
  rcases hbc with hbc | hbc
  · have hne : (b.before.opener b.call.flags).1 ≠ none := by rw [hbl]; exact hrest _ hbc
    have := Store.opener_err hne
    rwa [hbl] at this
  · exact (System.open_step hT hbt (hbc ▸ hbp) hf).1

/-- Two processes that returned `created = true` created different incarnations. -/
theorem race_created_unique {j : Nat} {ei ej : Option Error} {a b : Act}
    (hi : (race F s modes evs).procs[i]? = some (.ret (true, ei)))
    (hj : (race F s modes evs).procs[j]? = some (.ret (true, ej)))
    (ha : (race F s modes evs).lastAct i = some a) (hb : (race F s modes evs).lastAct j = some b)
    (hab : a.after.entry = b.after.entry) : i = j := by
  obtain ⟨-, a', f, ha', hat, hap, -, -, haf⟩ := race_created_last hi
  obtain ⟨-, b', g, hb', hbt, hbp, -, -, hbf⟩ := race_created_last hj
  rw [ha, Option.some_inj] at ha'
  rw [hb, Option.some_inj] at hb'
  subst ha' hb'
  by_cases hij : i = j
  · exact hij
  have hne : a ≠ b := fun h => hij (Party.proc.inj (hap.symm.trans (h ▸ hbp))).1
  rw [haf, hbf] at hab
  simp only [Store.fresh_entry, Option.some_inj] at hab
  rcases ((race_traceInv F s modes evs).ordered.imp Or.inl).forall (fun _ _ => Or.symm) hat hbt hne
    with h | h
  · have := h.1
    rw [haf] at this
    simp only [Store.fresh_next] at this
    omega
  · have := h.1
    rw [hbf] at this
    simp only [Store.fresh_next] at this
    omega

end Race

/-- Processes running `openOrCreateFile` on one name with any modes, under any interleaving with
destroys and creates by other parties. A process that returned `created = true` returned no
error and created, with its last call, an incarnation present in no state before that call; a
process that returned `(false, nil)` opened with its last call the incarnation present then,
and created nothing; no two processes that returned `created = true` created the same
incarnation. -/
theorem openOrCreateFile_incarnations (F : OpenFlags) (s : Store) (modes : List (BitVec 64))
    (evs : List Event) :
    let sys := race F s modes evs
    (∀ i e, sys.procs[i]? = some (.ret (true, e)) → e = none ∧
      ∃ a f pre post, sys.lastAct i = some a ∧ a.party = .proc i ⟨f, none⟩ ∧ Exclusive f ∧
        sys.trace = pre ++ a :: post ∧ a.before.entry = none ∧
        a.after.entry = some a.before.next ∧ s.entry ≠ some a.before.next ∧
        ∀ b ∈ pre, b.before.entry ≠ some a.before.next ∧ b.after.entry ≠ some a.before.next) ∧
    (∀ i, sys.procs[i]? = some (.ret (false, none)) →
      ∃ a f n, sys.lastAct i = some a ∧ a.party = .proc i ⟨f, none⟩ ∧ f &&& Os.O_CREATE = 0 ∧
        a.before.entry = some n ∧ a.after = a.before ∧ ∀ b ∈ sys.acts i, b.after = b.before) ∧
    (∀ i j ei ej a b, sys.procs[i]? = some (.ret (true, ei)) →
      sys.procs[j]? = some (.ret (true, ej)) → sys.lastAct i = some a →
      sys.lastAct j = some b → a.after.entry = b.after.entry → i = j) := by
  refine ⟨fun i e h => ?_, fun i h => race_opened h, fun i j ei ej a b => race_created_unique⟩
  obtain ⟨rfl, a, f, hla, hat, hap, hf, hb, haf⟩ := race_created_last h
  obtain ⟨pre, post, ht⟩ := List.append_of_mem hat
  obtain ⟨hs, hpre⟩ := System.absent_before (race_traceInv F s modes evs) ht
  exact ⟨rfl, a, f, pre, post, hla, hap, hf, ht, hb, by rw [haf]; rfl, hs, hpre⟩

end GoIpc
