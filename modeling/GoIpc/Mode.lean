import Mathlib.Logic.Basic

/-!
# Open modes

The portable open-mode flags of the package and their translation into OS open flags
(`common.go`: `accessModeToOsMode`, `createModeToOsMode`, `openModeToOsMode`), and the
permission test `checkMqPerm` of the message queues.

Go's `int` is modelled as `BitVec 64`, the width of `int` on the 64-bit targets. The six
package constants `O_OPEN_OR_CREATE`, ..., `O_READWRITE` are declared in a file that is not
part of the modelled sources, so every definition takes them as a parameter `F : OpenFlags`.
The OS flags of package `os` are the Linux values.

* `accessModeToOsMode_eq_ok`, `createModeToOsMode_eq_ok`: each translator succeeds exactly
  when one constant of its table is set in the mode, and returns that constant's OS flags.
* `openModeToOsMode_eq_ok`: the composition succeeds exactly when one create constant and one
  access constant are set, and returns the OR of their OS flags.
* `openModeToOsMode_and_mask`: bits outside the six constants are ignored.
-/

namespace GoIpc

/-! ## Errors -/

/-- A Go `error` value as the package sees it: one built by `fmt.Errorf` or `errors.New`,
`io.EOF`, or one returned by the OS layer, sorted by the predicates of package `os` that the
package tests. `nil` is
`none : Option Error`. -/
inductive Error where
  /-- `fmt.Errorf(msg)`. -/
  | errorf (msg : String)
  /-- An error for which `os.IsExist` holds (`EEXIST`). -/
  | exist
  /-- An error for which `os.IsNotExist` holds (`ENOENT`). -/
  | notExist
  /-- Any other OS error, by its errno. -/
  | os (errno : Nat)
  /-- `io.EOF`. -/
  | eof
  /-- `errors.New(msg)`. -/
  | new (msg : String)
  deriving DecidableEq, Repr

/-- `os.IsExist(err)`; false for `nil`. -/
def isExist : Option Error → Bool
  | some .exist => true
  | _ => false

/-- `os.IsNotExist(err)`; false for `nil`. -/
def isNotExist : Option Error → Bool
  | some .notExist => true
  | _ => false

@[simp] theorem isExist_none : isExist none = false := rfl

@[simp] theorem isNotExist_none : isNotExist none = false := rfl

theorem isExist_iff {e : Option Error} : isExist e = true ↔ e = some .exist := by
  rcases e with _ | _ | _ | _ | _ <;> simp [isExist]

theorem isNotExist_iff {e : Option Error} : isNotExist e = true ↔ e = some .notExist := by
  rcases e with _ | _ | _ | _ | _ <;> simp [isNotExist]

/-! ## OS flags -/

namespace Os

/-- `os.O_RDONLY`. -/
def O_RDONLY : BitVec 64 := 0x0
/-- `os.O_WRONLY`. -/
def O_WRONLY : BitVec 64 := 0x1
/-- `os.O_RDWR`. -/
def O_RDWR : BitVec 64 := 0x2
/-- `os.O_CREATE`. -/
def O_CREATE : BitVec 64 := 0x40
/-- `os.O_EXCL`. -/
def O_EXCL : BitVec 64 := 0x80
/-- `os.O_TRUNC`. -/
def O_TRUNC : BitVec 64 := 0x200

end Os

/-! ## The package's open-mode constants -/

/-- Values of the package constants `O_OPEN_OR_CREATE`, `O_CREATE_ONLY`, `O_OPEN_ONLY`
(create modes) and `O_READ_ONLY`, `O_WRITE_ONLY`, `O_READWRITE` (access modes). -/
structure OpenFlags where
  O_OPEN_OR_CREATE : BitVec 64
  O_CREATE_ONLY : BitVec 64
  O_OPEN_ONLY : BitVec 64
  O_READ_ONLY : BitVec 64
  O_WRITE_ONLY : BitVec 64
  O_READWRITE : BitVec 64

namespace OpenFlags

/-- The create-mode constants, each with the OS flags `createModeToOsMode` gives it. -/
def createTable (F : OpenFlags) : List (BitVec 64 × BitVec 64) :=
  [(F.O_OPEN_OR_CREATE, Os.O_CREATE ||| Os.O_TRUNC), (F.O_CREATE_ONLY, Os.O_CREATE ||| Os.O_EXCL),
    (F.O_OPEN_ONLY, 0)]

/-- The access-mode constants, each with the OS flag `accessModeToOsMode` gives it. -/
def accessTable (F : OpenFlags) : List (BitVec 64 × BitVec 64) :=
  [(F.O_READ_ONLY, Os.O_RDONLY), (F.O_WRITE_ONLY, Os.O_WRONLY), (F.O_READWRITE, Os.O_RDWR)]

/-- The OR of the six constants. -/
def mask (F : OpenFlags) : BitVec 64 :=
  F.O_OPEN_OR_CREATE ||| F.O_CREATE_ONLY ||| F.O_OPEN_ONLY ||| F.O_READ_ONLY |||
    F.O_WRITE_ONLY ||| F.O_READWRITE

/-- Six distinct single bits, one choice of values for the constants. -/
def bits : OpenFlags := ⟨0x1, 0x2, 0x4, 0x8, 0x10, 0x20⟩

end OpenFlags

/-- The entries of `table` whose constant is set in `mode` (`mode&c != 0`). -/
def setIn (mode : BitVec 64) (table : List (BitVec 64 × BitVec 64)) :
    List (BitVec 64 × BitVec 64) :=
  table.filter fun e => decide (mode &&& e.1 ≠ 0)

/-! ## Bit tests -/

theorem and_or_eq {x a b : BitVec 64} : x &&& (a ||| b) = (x &&& a) ||| (x &&& b) := by
  ext i
  simp only [BitVec.getLsbD_and, BitVec.getLsbD_or]
  cases x.getLsbD i <;> simp

theorem or_eq_zero {a b : BitVec 64} : a ||| b = 0 ↔ a = 0 ∧ b = 0 := by
  refine ⟨fun h => ?_, fun ⟨ha, hb⟩ => by simp [ha, hb]⟩
  have hi : ∀ i, a.getLsbD i = false ∧ b.getLsbD i = false := fun i => by
    simpa using congrArg (fun y => y.getLsbD i) h
  exact ⟨BitVec.eq_of_getLsbD_eq fun i => by simp [(hi i).1],
    BitVec.eq_of_getLsbD_eq fun i => by simp [(hi i).2]⟩

/-- The code's test `mode&(a|b) != 0` is the test of either constant. -/
theorem and_or_ne_zero {x a b : BitVec 64} : x &&& (a ||| b) ≠ 0 ↔ x &&& a ≠ 0 ∨ x &&& b ≠ 0 := by
  rw [and_or_eq, Ne, or_eq_zero, not_and_or]

/-! ## The translators -/

/-- `accessModeToOsMode`: the OS access flag of the one access constant set in `mode`. The
named result `osMode` is still zero where the code ORs the flag into it. -/
def accessModeToOsMode (F : OpenFlags) (mode : BitVec 64) : Except Error (BitVec 64) :=
  if mode &&& F.O_READ_ONLY ≠ 0 then
    if mode &&& (F.O_WRITE_ONLY ||| F.O_READWRITE) ≠ 0 then
      .error (.errorf "incompatible open flags")
    else .ok Os.O_RDONLY
  else if mode &&& F.O_WRITE_ONLY ≠ 0 then
    if mode &&& F.O_READWRITE ≠ 0 then .error (.errorf "incompatible open flags")
    else .ok Os.O_WRONLY
  else if mode &&& F.O_READWRITE ≠ 0 then .ok Os.O_RDWR
  else .error (.errorf "no access mode flags")

/-- `createModeToOsMode`: the OS create flags of the one create constant set in `mode`. -/
def createModeToOsMode (F : OpenFlags) (mode : BitVec 64) : Except Error (BitVec 64) :=
  if mode &&& F.O_OPEN_OR_CREATE ≠ 0 then
    if mode &&& (F.O_CREATE_ONLY ||| F.O_OPEN_ONLY) ≠ 0 then
      .error (.errorf "incompatible open flags")
    else .ok (Os.O_CREATE ||| Os.O_TRUNC)
  else if mode &&& F.O_CREATE_ONLY ≠ 0 then
    if mode &&& F.O_OPEN_ONLY ≠ 0 then .error (.errorf "incompatible open flags")
    else .ok (Os.O_CREATE ||| Os.O_EXCL)
  else if mode &&& F.O_OPEN_ONLY ≠ 0 then .ok 0
  else .error (.errorf "no create mode flags")

/-- `openModeToOsMode`: the create flags OR'd with the access flag. -/
def openModeToOsMode (F : OpenFlags) (mode : BitVec 64) : Except Error (BitVec 64) := do
  let createMode ← createModeToOsMode F mode
  let accessMode ← accessModeToOsMode F mode
  return createMode ||| accessMode

theorem accessModeToOsMode_eq_ok {F : OpenFlags} {mode m : BitVec 64} :
    accessModeToOsMode F mode = .ok m ↔ ∃ a, setIn mode F.accessTable = [a] ∧ m = a.2 := by
  simp only [accessModeToOsMode, and_or_ne_zero, setIn, OpenFlags.accessTable]
  by_cases h1 : mode &&& F.O_READ_ONLY = 0#64 <;> by_cases h2 : mode &&& F.O_WRITE_ONLY = 0#64 <;>
    by_cases h3 : mode &&& F.O_READWRITE = 0#64 <;> simp [h1, h2, h3, @eq_comm _ m]

theorem createModeToOsMode_eq_ok {F : OpenFlags} {mode m : BitVec 64} :
    createModeToOsMode F mode = .ok m ↔ ∃ c, setIn mode F.createTable = [c] ∧ m = c.2 := by
  simp only [createModeToOsMode, and_or_ne_zero, setIn, OpenFlags.createTable]
  by_cases h1 : mode &&& F.O_OPEN_OR_CREATE = 0#64 <;>
    by_cases h2 : mode &&& F.O_CREATE_ONLY = 0#64 <;>
    by_cases h3 : mode &&& F.O_OPEN_ONLY = 0#64 <;> simp [h1, h2, h3, @eq_comm _ m]

theorem bind_eq_ok {x : Except Error α} {f : α → Except Error β} {b : β} :
    x >>= f = .ok b ↔ ∃ a, x = .ok a ∧ f a = .ok b := by
  cases x <;> simp [bind, Except.bind]

/-- `openModeToOsMode` succeeds when both translators do, with the OR of their flags. -/
theorem openModeToOsMode_eq_ok_iff {F : OpenFlags} {mode m : BitVec 64} :
    openModeToOsMode F mode = .ok m ↔ ∃ cm, createModeToOsMode F mode = .ok cm ∧
      ∃ am, accessModeToOsMode F mode = .ok am ∧ m = cm ||| am := by
  simp only [openModeToOsMode, bind_eq_ok]
  exact exists_congr fun _ => and_congr_right fun _ => exists_congr fun _ =>
    and_congr_right fun _ => ⟨fun h => (Except.ok.inj h).symm, fun h => h ▸ rfl⟩

theorem openModeToOsMode_eq_ok {F : OpenFlags} {mode m : BitVec 64} :
    openModeToOsMode F mode = .ok m ↔ ∃ c a, setIn mode F.createTable = [c] ∧
      setIn mode F.accessTable = [a] ∧ m = c.2 ||| a.2 := by
  simp only [openModeToOsMode_eq_ok_iff, createModeToOsMode_eq_ok, accessModeToOsMode_eq_ok]
  constructor
  · rintro ⟨_, ⟨c, hc, rfl⟩, _, ⟨a, ha, rfl⟩, rfl⟩
    exact ⟨c, a, hc, ha, rfl⟩
  · rintro ⟨c, a, hc, ha, rfl⟩
    exact ⟨_, ⟨c, hc, rfl⟩, _, ⟨a, ha, rfl⟩, rfl⟩

theorem mask_and {F : OpenFlags} {c : BitVec 64}
    (hc : c ∈ [F.O_OPEN_OR_CREATE, F.O_CREATE_ONLY, F.O_OPEN_ONLY, F.O_READ_ONLY,
      F.O_WRITE_ONLY, F.O_READWRITE]) : F.mask &&& c = c := by
  simp only [List.mem_cons, List.mem_singleton, List.not_mem_nil, or_false] at hc
  ext i
  simp only [OpenFlags.mask, BitVec.getLsbD_and, BitVec.getLsbD_or]
  cases hb : c.getLsbD i
  · simp
  · rcases hc with rfl | rfl | rfl | rfl | rfl | rfl <;> simp [hb]

/-- Bits of `mode` outside the six constants do not change the outcome. -/
theorem openModeToOsMode_and_mask (F : OpenFlags) (mode : BitVec 64) :
    openModeToOsMode F (mode &&& F.mask) = openModeToOsMode F mode := by
  have h : ∀ c ∈ [F.O_OPEN_OR_CREATE, F.O_CREATE_ONLY, F.O_OPEN_ONLY, F.O_READ_ONLY,
      F.O_WRITE_ONLY, F.O_READWRITE], mode &&& F.mask &&& c = mode &&& c := fun c hc => by
    rw [BitVec.and_assoc, mask_and hc]
  simp only [List.mem_cons, List.mem_singleton, List.not_mem_nil, or_false, forall_eq_or_imp,
    forall_eq] at h
  obtain ⟨h1, h2, h3, h4, h5, h6⟩ := h
  simp only [openModeToOsMode, createModeToOsMode, accessModeToOsMode, and_or_ne_zero, h1, h2, h3,
    h4, h5, h6]

/-! ## Message-queue permissions -/

/-- `checkMqPerm(perm)` of package `mq`: `uint(perm)&0111 == 0`. An `os.FileMode` is a
`uint32`, and widening it to `uint` keeps its bits. -/
def checkMqPerm (perm : BitVec 32) : Bool := perm &&& 0o111 == 0

end GoIpc
