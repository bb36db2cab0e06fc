import GoIpc.Opener
import Mathlib.Tactic.SplitIfs

/-!
# `openOrCreateFile`

`openOrCreateFile(opener, mode)` of `common.go` as a program of opener calls. With
`O_OPEN_ONLY` or `O_CREATE_ONLY` it validates the mode with `openModeToOsMode` and calls the
opener once. With `O_OPEN_OR_CREATE` it validates only the access bits and runs a loop of
`attempts = 16` rounds, each an exclusive create and, when that fails with `os.IsExist`, a
plain open; a plain open failing with `os.IsNotExist` starts the next round.

* `openOrCreateLoop_sat`: every run of the loop, against any opener, is a number of full
  rounds followed by an exclusive create that did not fail with `os.IsExist`, or by a failed
  create and an open that did not fail with `os.IsNotExist`, or is `attempts` full rounds.
* `openOrCreateFile_reflects`, `openOrCreateFile_run_reflects`: a `true` result comes from a
  last call that was an exclusive create, a `(false, nil)` result from a last call without
  `O_CREATE` that succeeded, a `(false, err)` result from no call or from a last call that
  failed with `err`, and every earlier call failed.
* `openOrCreateFile_run_flags`: every call passes the access flag the mode asks for, alone or
  with `O_CREATE|O_EXCL`, so no call truncates or creates without `O_EXCL`.
* `openOrCreateFile_validation`: the opener is called iff `openModeToOsMode` accepts the mode,
  whatever branch the mode takes.
* `openOrCreateFile_created_with_error`: an exclusive create failing with another error than
  `os.IsExist` is reported as a creation.
-/

namespace GoIpc

/-- `flags` asks for an exclusive create: `O_CREATE` and `O_EXCL` are both set. -/
def Exclusive (flags : BitVec 64) : Prop :=
  flags &&& (Os.O_CREATE ||| Os.O_EXCL) = Os.O_CREATE ||| Os.O_EXCL

instance : DecidablePred Exclusive := fun _ => inferInstanceAs (Decidable (_ = _))

theorem exclusive_create (amode : BitVec 64) : Exclusive (amode ||| Os.O_CREATE ||| Os.O_EXCL) := by
  unfold Exclusive
  ext i
  simp only [BitVec.getLsbD_and, BitVec.getLsbD_or]
  cases Os.O_CREATE.getLsbD i <;> cases Os.O_EXCL.getLsbD i <;> simp

/-- The OS flag of the one access constant set in a mode is `O_RDONLY`, `O_WRONLY` or
`O_RDWR`. -/
theorem access_flag {F : OpenFlags} {mode : BitVec 64} {a : BitVec 64 × BitVec 64}
    (hs : setIn mode F.accessTable = [a]) :
    a.2 = Os.O_RDONLY ∨ a.2 = Os.O_WRONLY ∨ a.2 = Os.O_RDWR := by
  have hmem : a ∈ F.accessTable :=
    (List.mem_filter.1 (show a ∈ setIn mode F.accessTable by simp [hs])).1
  simp only [OpenFlags.accessTable, List.mem_cons, List.mem_singleton, List.not_mem_nil,
    or_false] at hmem
  rcases hmem with rfl | rfl | rfl <;> simp

/-- Every access flag leaves `O_CREATE` clear. -/
theorem accessModeToOsMode_create {F : OpenFlags} {mode m : BitVec 64}
    (h : accessModeToOsMode F mode = .ok m) : m &&& Os.O_CREATE = 0 := by
  obtain ⟨a, ha, rfl⟩ := accessModeToOsMode_eq_ok.1 h
  rcases access_flag ha with h | h | h <;> rw [h] <;> decide

/-- With `O_OPEN_ONLY` or `O_CREATE_ONLY` set, the create flags are those of `O_CREATE_ONLY`
when it is set and none otherwise. -/
theorem createModeToOsMode_of_only {F : OpenFlags} {mode m : BitVec 64}
    (h : mode &&& (F.O_OPEN_ONLY ||| F.O_CREATE_ONLY) ≠ 0)
    (hc : createModeToOsMode F mode = .ok m) :
    m = if mode &&& F.O_CREATE_ONLY ≠ 0 then Os.O_CREATE ||| Os.O_EXCL else 0 := by
  unfold createModeToOsMode at hc
  split_ifs at hc with h1 h2 h3 h4 h5 <;> cases hc
  · rw [and_or_ne_zero, or_comm, ← and_or_ne_zero] at h
    exact absurd h h2
  · rw [if_pos h3]
  · rw [if_neg h3]

/-! ## The functions -/

/-- `const attempts = 16`. -/
def attempts : Nat := 16

/-- The `O_OPEN_OR_CREATE` loop with `n` attempts left; `err` is the error of the last call,
returned once no attempt is left. -/
def openOrCreateLoop (amode : BitVec 64) : Nat → Option Error → Calls (Bool × Option Error)
  | 0, err => .ret (false, err)
  | n + 1, _ =>
    .call (amode ||| Os.O_CREATE ||| Os.O_EXCL) fun err =>
      if !isExist err then .ret (true, err) else
      .call amode fun err =>
        if !isNotExist err then .ret (false, err) else openOrCreateLoop amode n err

/-- `openOrCreateFile(opener, mode)`: whether this call created the object, and the error. -/
def openOrCreateFile (F : OpenFlags) (mode : BitVec 64) : Calls (Bool × Option Error) :=
  if mode &&& (F.O_OPEN_ONLY ||| F.O_CREATE_ONLY) ≠ 0 then
    match openModeToOsMode F mode with
    | .error err => .ret (false, some err)
    | .ok osMode => .call osMode fun err =>
      if err = none then .ret (decide (mode &&& F.O_CREATE_ONLY ≠ 0), none) else .ret (false, err)
  else if mode &&& F.O_OPEN_OR_CREATE ≠ 0 then
    match accessModeToOsMode F mode with
    | .ok amode => openOrCreateLoop amode attempts none
    | .error err => .ret (false, some err)
  else .ret (false, some (.errorf "unknown open mode"))

/-! ## The loop -/

/-- The calls of `k` rounds that each went on to the next: the exclusive create failed with
`os.IsExist` and the open with `os.IsNotExist`. -/
def rounds (amode : BitVec 64) : Nat → List Call
  | 0 => []
  | k + 1 => rounds amode k ++
      [⟨amode ||| Os.O_CREATE ||| Os.O_EXCL, some .exist⟩, ⟨amode, some .notExist⟩]

@[simp] theorem length_rounds (amode : BitVec 64) (k : Nat) : (rounds amode k).length = 2 * k := by
  induction k with
  | zero => rfl
  | succ k ih => simp [rounds, ih]; omega

/-- Where the loop calls: at the start of a round with an exclusive create, or after the
round's create failed with `os.IsExist` with a plain open. -/
def LoopCall (amode : BitVec 64) (h : List Call) (f : BitVec 64) : Prop :=
  ∃ k < attempts, (h = rounds amode k ∧ f = amode ||| Os.O_CREATE ||| Os.O_EXCL) ∨
    (h = rounds amode k ++ [⟨amode ||| Os.O_CREATE ||| Os.O_EXCL, some .exist⟩] ∧ f = amode)

/-- How the loop ends: after an exclusive create that did not fail with `os.IsExist`
(reported as created, with its error), after an open that did not fail with `os.IsNotExist`
(not created, with its error), or after `attempts` full rounds. -/
def LoopResult (amode : BitVec 64) (h : List Call) (r : Bool × Option Error) : Prop :=
  (∃ k < attempts, ∃ e, isExist e = false ∧
    h = rounds amode k ++ [⟨amode ||| Os.O_CREATE ||| Os.O_EXCL, e⟩] ∧ r = (true, e)) ∨
  (∃ k < attempts, ∃ e, isNotExist e = false ∧
    h = rounds amode k ++ [⟨amode ||| Os.O_CREATE ||| Os.O_EXCL, some .exist⟩, ⟨amode, e⟩] ∧
    r = (false, e)) ∨
  (h = rounds amode attempts ∧ r = (false, some .notExist))

/-- The loop's spec against any opener, started after `k` full rounds with `n` attempts left. -/
theorem openOrCreateLoop_sat (amode : BitVec 64) (n k : Nat) (err : Option Error)
    (hk : k + n = attempts) (he : 0 < k → err = some .notExist) :
    (openOrCreateLoop amode n err).Sat (LoopCall amode) (LoopResult amode) (rounds amode k) := by
  induction n generalizing k err with
  | zero =>
    obtain rfl : k = attempts := hk
    exact .inr (.inr ⟨rfl, by rw [he (by decide)]⟩)
  | succ n ih =>
    have hlt : k < attempts := by omega
    refine ⟨⟨k, hlt, .inl ⟨rfl, rfl⟩⟩, fun e => ?_⟩
    cases hx : isExist e
    · simp only [hx, Bool.not_false, if_true, Calls.sat_ret]
      exact .inl ⟨k, hlt, e, hx, rfl, rfl⟩
    obtain rfl := isExist_iff.1 hx
    refine ⟨⟨k, hlt, .inr ⟨rfl, rfl⟩⟩, fun e' => ?_⟩
    cases hn : isNotExist e'
    · simp only [hn, Bool.not_false, if_true, Calls.sat_ret]
      exact .inr (.inl ⟨k, hlt, e', hn, by simp, rfl⟩)
    obtain rfl := isNotExist_iff.1 hn
    simpa [rounds] using ih (k + 1) (some .notExist) (by omega) (fun _ => rfl)

/-- The `O_OPEN_OR_CREATE` branch is the loop, started with `attempts` attempts. -/
theorem openOrCreateFile_of_openOrCreate {F : OpenFlags} {mode amode : BitVec 64}
    (h1 : ¬mode &&& (F.O_OPEN_ONLY ||| F.O_CREATE_ONLY) ≠ 0) (h2 : mode &&& F.O_OPEN_OR_CREATE ≠ 0)
    (ha : accessModeToOsMode F mode = .ok amode) :
    openOrCreateFile F mode = openOrCreateLoop amode attempts none := by
  rw [openOrCreateFile, if_neg h1, if_pos h2, ha]

/-! ## What a result says about the calls -/

/-- What a result of `openOrCreateFile` says about the calls that led to it: `created = true`
comes from a last call that was an exclusive create and did not fail with `os.IsExist`,
`(false, nil)` from a last call without `O_CREATE` that succeeded, and `(false, err)` either
from no call at all (the mode was rejected) or from a last call that failed with `err`; every
call before the last one failed. -/
def Reflects (h : List Call) : Bool × Option Error → Prop
  | (true, e) => ∃ f rest, h = rest ++ [⟨f, e⟩] ∧ Exclusive f ∧ isExist e = false ∧
      ∀ c ∈ rest, c.err ≠ none
  | (false, none) => ∃ f rest, h = rest ++ [⟨f, none⟩] ∧ f &&& Os.O_CREATE = 0 ∧
      ∀ c ∈ rest, c.err ≠ none
  | (false, some e) => h = [] ∨ ∃ f rest, h = rest ++ [⟨f, some e⟩] ∧ ∀ c ∈ rest, c.err ≠ none

theorem rounds_err {amode : BitVec 64} {k : Nat} : ∀ c ∈ rounds amode k, c.err ≠ none := by
  induction k with
  | zero => simp [rounds]
  | succ k ih =>
    intro c hc
    simp only [rounds, List.mem_append, List.mem_cons, List.mem_singleton, List.not_mem_nil,
      or_false] at hc
    rcases hc with hc | rfl | rfl
    · exact ih c hc
    all_goals simp

theorem rounds_exist_err {amode : BitVec 64} {k : Nat} :
    ∀ c ∈ rounds amode k ++ [⟨amode ||| Os.O_CREATE ||| Os.O_EXCL, some .exist⟩], c.err ≠ none := by
  intro c hc
  rcases List.mem_append.1 hc with hc | hc
  · exact rounds_err c hc
  · simp [List.mem_singleton.1 hc]

theorem rounds_succ (amode : BitVec 64) (k : Nat) :
    rounds amode (k + 1) = (rounds amode k ++ [⟨amode ||| Os.O_CREATE ||| Os.O_EXCL, some .exist⟩])
      ++ [⟨amode, some .notExist⟩] := by
  simp [rounds]

theorem LoopResult.reflects {amode : BitVec 64} (hA : amode &&& Os.O_CREATE = 0)
    {h : List Call} {r : Bool × Option Error} (hr : LoopResult amode h r) : Reflects h r := by
  rcases hr with ⟨k, -, e, he, rfl, rfl⟩ | ⟨k, -, e, he, rfl, rfl⟩ | ⟨hh, rfl⟩
  · exact ⟨_, rounds amode k, rfl, exclusive_create amode, he, rounds_err⟩
  · have hh := (List.append_assoc (rounds amode k) [⟨amode ||| Os.O_CREATE ||| Os.O_EXCL, some .exist⟩]
      [⟨amode, e⟩]).symm
    cases e with
    | none => exact ⟨amode, _, hh, hA, rounds_exist_err⟩
    | some _ => exact .inr ⟨amode, _, hh, rounds_exist_err⟩
  · exact .inr ⟨amode, _, hh.trans (rounds_succ amode (attempts - 1)), rounds_exist_err⟩

theorem openOrCreateFile_reflects (F : OpenFlags) (mode : BitVec 64) :
    (openOrCreateFile F mode).Sat (fun _ _ => True) Reflects [] := by
  unfold openOrCreateFile
  split_ifs with h1 h2
  · split
    · exact .inl rfl
    · rename_i osMode hm
      obtain ⟨cm, hc, am, ha, hm⟩ : ∃ cm, createModeToOsMode F mode = .ok cm ∧
          ∃ am, accessModeToOsMode F mode = .ok am ∧ osMode = cm ||| am :=
        openModeToOsMode_eq_ok_iff.1 hm
      rw [createModeToOsMode_of_only h1 hc] at hm
      refine ⟨trivial, fun e => ?_⟩
      dsimp only
      split_ifs with he
      · subst he hm
        by_cases hco : mode &&& F.O_CREATE_ONLY ≠ 0
        · rw [Calls.sat_ret, decide_eq_true hco]
          refine ⟨_, [], rfl, ?_, rfl, by simp⟩
          rw [if_pos hco, BitVec.or_comm, ← BitVec.or_assoc]
          exact exclusive_create am
        · rw [Calls.sat_ret, decide_eq_false hco]
          refine ⟨_, [], rfl, ?_, by simp⟩
          rw [if_neg hco]
          simpa using accessModeToOsMode_create ha
      · cases e with
        | none => exact absurd rfl he
        | some _ => exact .inr ⟨_, [], rfl, by simp⟩
  · split
    · rename_i amode ha
      exact (openOrCreateLoop_sat amode attempts 0 none (by simp) (by simp)).mono
        (fun _ _ _ => trivial)
        fun _ _ hr => hr.reflects (accessModeToOsMode_create ha)
    · exact .inl rfl
  · exact .inl rfl

/-- A call `openOrCreateFile F mode` may make: the OS flag of the one access constant set in
`mode`, alone or with `O_CREATE|O_EXCL`. -/
def ModeCall (F : OpenFlags) (mode : BitVec 64) (_ : List Call) (f : BitVec 64) : Prop :=
  ∃ a, setIn mode F.accessTable = [a] ∧ (f = a.2 ∨ f = a.2 ||| Os.O_CREATE ||| Os.O_EXCL)

theorem openOrCreateFile_modeCall (F : OpenFlags) (mode : BitVec 64) :
    (openOrCreateFile F mode).Sat (ModeCall F mode) (fun _ _ => True) [] := by
  unfold openOrCreateFile
  split_ifs with h1 h2
  · split
    · trivial
    · rename_i osMode hm
      obtain ⟨cm, hc, am, ha, rfl⟩ := openModeToOsMode_eq_ok_iff.1 hm
      obtain ⟨a, hs, rfl⟩ := accessModeToOsMode_eq_ok.1 ha
      refine ⟨⟨a, hs, ?_⟩, fun e => ?_⟩
      · rw [createModeToOsMode_of_only h1 hc]
        split_ifs
        · exact .inr (by rw [BitVec.or_comm, ← BitVec.or_assoc])
        · exact .inl BitVec.zero_or
      · dsimp only
        split_ifs <;> trivial
  · split
    · rename_i amode ha
      obtain ⟨a, hs, rfl⟩ := accessModeToOsMode_eq_ok.1 ha
      exact (openOrCreateLoop_sat a.2 attempts 0 none (by simp) (by simp)).mono
        (fun _ _ ⟨_, _, h⟩ => ⟨a, hs, h.elim (fun h => .inr h.2) fun h => .inl h.2⟩)
        fun _ _ _ => trivial
    · trivial
  · trivial

/-- Run against any opener, every call of `openOrCreateFile` passes the OS access flag of the
one access constant set in the mode, alone or with `O_CREATE|O_EXCL`: no call truncates the
object (`O_TRUNC`), and none sets `O_CREATE` without `O_EXCL`. -/
theorem openOrCreateFile_run_flags (F : OpenFlags) (mode : BitVec 64)
    (opener : List Call → BitVec 64 → Option Error) :
    ∀ c ∈ ((openOrCreateFile F mode).run opener []).2,
      (∃ a, setIn mode F.accessTable = [a] ∧
        (c.flags = a.2 ∨ c.flags = a.2 ||| Os.O_CREATE ||| Os.O_EXCL)) ∧
      c.flags &&& Os.O_TRUNC = 0 ∧ (c.flags &&& Os.O_CREATE ≠ 0 → Exclusive c.flags) := by
  intro c hc
  obtain ⟨-, a, hs, hf⟩ := ((openOrCreateFile_modeCall F mode).run opener .nil).2.mem hc
  refine ⟨⟨a, hs, hf⟩, ?_⟩
  rcases access_flag hs with h | h | h <;> rcases hf with hf | hf <;> rw [hf, h] <;> decide

theorem openOrCreateFile_run_flags_readwrite :
    (⟨Os.O_RDWR ||| Os.O_CREATE ||| Os.O_EXCL, some (.os 13)⟩ : Call) ∈
        ((openOrCreateFile OpenFlags.bits
          (OpenFlags.bits.O_OPEN_OR_CREATE ||| OpenFlags.bits.O_READWRITE)).run
          (fun _ _ => some (.os 13)) []).2 ∧
      (∃ a, setIn (OpenFlags.bits.O_OPEN_OR_CREATE ||| OpenFlags.bits.O_READWRITE)
          OpenFlags.bits.accessTable = [a] ∧
        (Os.O_RDWR ||| Os.O_CREATE ||| Os.O_EXCL = a.2 ∨
          Os.O_RDWR ||| Os.O_CREATE ||| Os.O_EXCL = a.2 ||| Os.O_CREATE ||| Os.O_EXCL)) ∧
      (Os.O_RDWR ||| Os.O_CREATE ||| Os.O_EXCL) &&& Os.O_TRUNC = 0 ∧
      ((Os.O_RDWR ||| Os.O_CREATE ||| Os.O_EXCL) &&& Os.O_CREATE ≠ 0 →
        Exclusive (Os.O_RDWR ||| Os.O_CREATE ||| Os.O_EXCL)) :=
  have hc : (⟨Os.O_RDWR ||| Os.O_CREATE ||| Os.O_EXCL, some (.os 13)⟩ : Call) ∈
      ((openOrCreateFile OpenFlags.bits
        (OpenFlags.bits.O_OPEN_OR_CREATE ||| OpenFlags.bits.O_READWRITE)).run
        (fun _ _ => some (.os 13)) []).2 := by decide
  ⟨hc, openOrCreateFile_run_flags _ _ _ _ hc⟩

/-! ## Validation before any call -/

/-- The first step of `openOrCreateFile`: a call when `openModeToOsMode` accepts the mode, a
`(false, error)` result otherwise. -/
theorem openOrCreateFile_first (F : OpenFlags) (mode : BitVec 64) :
    (∃ m, openModeToOsMode F mode = .ok m ∧ ∃ f next, openOrCreateFile F mode = .call f next) ∨
    (∃ e, openModeToOsMode F mode = .error e ∧
      ∃ e', openOrCreateFile F mode = .ret (false, some e')) := by
  by_cases h1 : mode &&& (F.O_OPEN_ONLY ||| F.O_CREATE_ONLY) ≠ 0
  · cases hm : openModeToOsMode F mode with
    | ok m => exact .inl ⟨m, rfl, _, _, by rw [openOrCreateFile, if_pos h1, hm]⟩
    | error e => exact .inr ⟨e, rfl, e, by rw [openOrCreateFile, if_pos h1, hm]⟩
  have hno : ¬mode &&& (F.O_CREATE_ONLY ||| F.O_OPEN_ONLY) ≠ 0 := by
    rwa [and_or_ne_zero, or_comm, ← and_or_ne_zero]
  by_cases h2 : mode &&& F.O_OPEN_OR_CREATE ≠ 0
  · have hc : createModeToOsMode F mode = .ok (Os.O_CREATE ||| Os.O_TRUNC) := by
      rw [createModeToOsMode, if_pos h2, if_neg hno]
    cases ha : accessModeToOsMode F mode with
    | ok amode =>
      refine .inl ⟨_, openModeToOsMode_eq_ok_iff.2 ⟨_, hc, _, ha, rfl⟩, ?_⟩
      rw [openOrCreateFile_of_openOrCreate h1 h2 ha]
      exact ⟨_, _, rfl⟩
    | error e =>
      exact .inr ⟨e, by rw [openModeToOsMode, hc, ha]; rfl, e,
        by rw [openOrCreateFile, if_neg h1, if_pos h2, ha]⟩
  · have hco : ¬mode &&& F.O_CREATE_ONLY ≠ 0 := fun h => h1 (and_or_ne_zero.2 (.inr h))
    have hoo : ¬mode &&& F.O_OPEN_ONLY ≠ 0 := fun h => h1 (and_or_ne_zero.2 (.inl h))
    have hc : createModeToOsMode F mode = .error (.errorf "no create mode flags") := by
      rw [createModeToOsMode, if_neg h2, if_neg hco, if_neg hoo]
    exact .inr ⟨.errorf "no create mode flags", by rw [openModeToOsMode, hc]; rfl, _,
      by rw [openOrCreateFile, if_neg h1, if_neg h2]⟩

/-- `openModeToOsMode` accepts exactly the modes with one create constant and one access
constant set, ignoring all other bits, and `openOrCreateFile` calls the opener iff
`openModeToOsMode` accepts the mode, returning `(false, error)` with no call otherwise. -/
theorem openOrCreateFile_validation (F : OpenFlags) (mode : BitVec 64) :
    (∀ m, openModeToOsMode F mode = .ok m ↔ ∃ c a, setIn mode F.createTable = [c] ∧
      setIn mode F.accessTable = [a] ∧ m = c.2 ||| a.2) ∧
    openModeToOsMode F (mode &&& F.mask) = openModeToOsMode F mode ∧
    ((∃ f next, openOrCreateFile F mode = .call f next) ↔ ∃ m, openModeToOsMode F mode = .ok m) ∧
    (∀ e, openModeToOsMode F mode = .error e →
      ∃ e', openOrCreateFile F mode = .ret (false, some e')) := by
  refine ⟨fun _ => openModeToOsMode_eq_ok, openModeToOsMode_and_mask F mode, ?_, ?_⟩
  · rcases openOrCreateFile_first F mode with ⟨m, hm, hc⟩ | ⟨e, he, e', hr⟩
    · exact ⟨fun _ => ⟨m, hm⟩, fun _ => hc⟩
    · refine ⟨fun ⟨f, next, hc⟩ => ?_, fun ⟨m, hm⟩ => ?_⟩
      · rw [hr] at hc
        cases hc
      · rw [hm] at he
        cases he
  · intro e he
    rcases openOrCreateFile_first F mode with ⟨m, hm, -⟩ | ⟨-, -, hr⟩
    · rw [hm] at he
      cases he
    · exact hr

/-- With an exclusive create that fails with another error than `os.IsExist` (here `EACCES`),
`openOrCreateFile` reports a creation together with that error. -/
theorem openOrCreateFile_created_with_error :
    (openOrCreateFile OpenFlags.bits
      (OpenFlags.bits.O_OPEN_OR_CREATE ||| OpenFlags.bits.O_READWRITE)).run
      (fun _ _ => some (.os 13)) [] =
      ((true, some (.os 13)), [⟨Os.O_RDWR ||| Os.O_CREATE ||| Os.O_EXCL, some (.os 13)⟩]) := by
  decide

end GoIpc
