import GoIpc.Incarnations

/-!
# `openOrCreateFile` is an atomic open

What a caller of `openOrCreateFile` asks for is one atomic step on the namespace
(`atomicOpen`): with `O_CREATE_ONLY` a new incarnation under an absent name, and `os.IsExist`
otherwise; with `O_OPEN_ONLY` the present incarnation, and `os.IsNotExist` otherwise; with
`O_OPEN_OR_CREATE` the present incarnation or a new one, or giving up with `os.IsNotExist`, the
transient race the retry protocol reports. The atomic system (`AtomicSystem`) runs such opens
interleaved with destroys and creates by other parties.

Every run of processes running `openOrCreateFile` (`race`) is simulated by a run of the atomic
system: the call that ends a process is its atomic open, and every other call changes nothing.

* `openOrCreateFile_linearized`: `openOrCreateFile` calls only after failed calls, and its last
  call does the atomic open of the mode's kind, whatever entry it meets.
* `System.Simulates.step`, `System.Simulates.run`: the simulation holds for one event, and along
  every run.
* `race_refines`: the atomic system, run on the atomic events of any run of `race`, ends with the
  same entry and the same results; a process whose mode is rejected makes no call.
-/

namespace GoIpc

/-! ## The atomic open -/

/-- The create mode of a mode that `openModeToOsMode` accepts. -/
inductive OpenKind where
  | createOnly
  | openOnly
  | openOrCreate
  deriving DecidableEq, Repr

/-- The create mode `mode` asks for, `none` when `openModeToOsMode` rejects it. An accepted mode
has exactly one create constant set. -/
def openKind (F : OpenFlags) (mode : BitVec 64) : Option OpenKind :=
  match openModeToOsMode F mode with
  | .error _ => none
  | .ok _ =>
    if mode &&& F.O_CREATE_ONLY ≠ 0 then some .createOnly
    else if mode &&& F.O_OPEN_ONLY ≠ 0 then some .openOnly
    else some .openOrCreate

/-- An open of kind `k` as one step on the entry `s`: the result `(created, err)` and the entry
after it. -/
def atomicOpen : OpenKind → Store → (Bool × Option Error) × Store
  | .createOnly, s => if s.entry = none then ((true, none), s.fresh) else ((false, some .exist), s)
  | .openOnly, s => if s.entry = none then ((false, some .notExist), s) else ((false, none), s)
  | .openOrCreate, s => if s.entry = none then ((true, none), s.fresh) else ((false, none), s)

/-- An open of kind `k` may take `s` to `s'` returning `r`: it is the atomic open, or an
`O_OPEN_OR_CREATE` that gives up with `os.IsNotExist` and changes nothing. -/
def AtomicStep (k : OpenKind) (s : Store) (r : Bool × Option Error) (s' : Store) : Prop :=
  (r, s') = atomicOpen k s ∨ (k = .openOrCreate ∧ r = (false, some .notExist) ∧ s' = s)

theorem atomicOpen_openOrCreate_ne (s : Store) :
    (atomicOpen .openOrCreate s).1 ≠ (false, some .notExist) := by
  rw [atomicOpen]
  split_ifs <;> simp

theorem openKind_eq_none {F : OpenFlags} {mode : BitVec 64} :
    openKind F mode = none ↔ ∃ e, openModeToOsMode F mode = .error e := by
  unfold openKind
  split
  · simp_all
  · split_ifs <;> simp_all

/-! ## The calls of `openOrCreateFile` -/

/-- A call made after failed calls only. -/
def AfterFailures (h : List Call) (_ : BitVec 64) : Prop := ∀ c ∈ h, c.err ≠ none

/-- The result `r` after the calls `h` is the atomic open of kind `k`, done by the last call on
whatever entry it met, the namespace answering it with the error it returned. -/
def Linearized (k : OpenKind) (h : List Call) (r : Bool × Option Error) : Prop :=
  ∃ rest c, h = rest ++ [c] ∧
    ∀ s : Store, (s.opener c.flags).1 = c.err → AtomicStep k s r (s.opener c.flags).2

theorem single_linearized {k : OpenKind} {f : BitVec 64} {b : Bool}
    (hk : ∀ s : Store, atomicOpen k s =
      (if (s.opener f).1 = none then (b, none) else (false, (s.opener f).1), (s.opener f).2)) :
    (Calls.call f fun err => if err = none then .ret (b, none) else .ret (false, err)).Sat
      AfterFailures (Linearized k) [] := by
  refine ⟨fun _ => nofun, fun e => ?_⟩
  dsimp only
  rw [← apply_ite Calls.ret]
  exact ⟨[], ⟨f, e⟩, rfl, fun s (hs : (s.opener f).1 = e) => .inl (by rw [hk s, hs])⟩

theorem LoopCall.afterFailures {amode : BitVec 64} {h : List Call} {f : BitVec 64}
    (hl : LoopCall amode h f) : AfterFailures h f := by
  obtain ⟨k, -, ⟨rfl, -⟩ | ⟨rfl, -⟩⟩ := hl
  · exact rounds_err
  · intro c hc
    rcases List.mem_append.1 hc with hc | hc
    · exact rounds_err c hc
    · rw [List.mem_singleton.1 hc]
      simp

/-- How the loop ends is the atomic `O_OPEN_OR_CREATE` done by its last call: an exclusive
create that did not fail with `os.IsExist` found the name absent, an open that did not fail
with `os.IsNotExist` found it present, and the last open of `attempts` full rounds gave up. -/
theorem LoopResult.linearized {amode : BitVec 64} (hA : amode &&& Os.O_CREATE = 0)
    {h : List Call} {r : Bool × Option Error} (hr : LoopResult amode h r) :
    Linearized .openOrCreate h r := by
  rcases hr with ⟨k, -, e, he, rfl, rfl⟩ | ⟨k, -, e, he, rfl, rfl⟩ | ⟨hh, rfl⟩
  · refine ⟨_, _, rfl, fun s (hs : (s.opener _).1 = e) => .inl ?_⟩
    rw [Store.opener_exclusive (exclusive_create amode)] at hs ⊢
    by_cases hn : s.entry = none <;> simp only [hn, if_true, if_false] at hs ⊢
    · rw [← hs, atomicOpen, if_pos hn]
    · rw [← hs] at he
      cases he
  · refine ⟨rounds amode k ++ [⟨amode ||| Os.O_CREATE ||| Os.O_EXCL, some .exist⟩], ⟨amode, e⟩,
      by simp,
      fun s (hs : (s.opener amode).1 = e) => .inl ?_⟩
    rw [Store.opener_open hA] at hs ⊢
    by_cases hn : s.entry = none <;> simp only [hn, if_true, if_false] at hs ⊢
    · rw [← hs] at he
      cases he
    · rw [← hs, atomicOpen, if_neg hn]
  · refine ⟨rounds amode 15 ++ [⟨amode ||| Os.O_CREATE ||| Os.O_EXCL, some .exist⟩],
      ⟨amode, some .notExist⟩, by rw [hh, attempts, rounds, List.append_assoc]; rfl,
      fun s hs => .inr ⟨rfl, rfl, Store.opener_err ?_⟩⟩
    rw [hs]
    exact Option.some_ne_none _

/-- `openOrCreateFile` calls the opener only after failed calls, and its result is the atomic
open of the mode's kind, done by its last call. -/
theorem openOrCreateFile_linearized {F : OpenFlags} {mode : BitVec 64} {k : OpenKind}
    (hk : openKind F mode = some k) :
    (openOrCreateFile F mode).Sat AfterFailures (Linearized k) [] := by
  obtain ⟨m, hm⟩ : ∃ m, openModeToOsMode F mode = .ok m := by
    cases hm : openModeToOsMode F mode with
    | ok m => exact ⟨m, rfl⟩
    | error e => exact absurd hk (by rw [openKind_eq_none.2 ⟨e, hm⟩]; nofun)
  rw [openKind, hm] at hk
  obtain ⟨cm, hc, am, ha, rfl⟩ := openModeToOsMode_eq_ok_iff.1 hm
  have hA := accessModeToOsMode_create ha
  unfold openOrCreateFile
  split_ifs with h1 h2
  · rw [hm, createModeToOsMode_of_only h1 hc]
    by_cases hco : mode &&& F.O_CREATE_ONLY ≠ 0
    · rw [if_pos hco] at hk ⊢
      cases hk
      rw [decide_eq_true hco]
      have hx : Exclusive ((Os.O_CREATE ||| Os.O_EXCL) ||| am) := by
        rw [BitVec.or_comm, ← BitVec.or_assoc]
        exact exclusive_create am
      refine single_linearized fun s => ?_
      by_cases hn : s.entry = none <;> simp [atomicOpen, Store.opener_exclusive hx, hn]
    · have hoo : mode &&& F.O_OPEN_ONLY ≠ 0 := (and_or_ne_zero.1 h1).resolve_right hco
      rw [if_neg hco, if_pos hoo] at hk
      rw [if_neg hco, decide_eq_false hco]
      cases hk
      refine single_linearized fun s => ?_
      by_cases hn : s.entry = none <;> simp [atomicOpen, Store.opener_open hA, hn]
  · rw [if_neg fun h => h1 (and_or_ne_zero.2 (.inr h)),
      if_neg fun h => h1 (and_or_ne_zero.2 (.inl h))] at hk
    cases hk
    rw [ha]
    exact (openOrCreateLoop_sat am attempts 0 none (by simp) (by simp)).mono
      (fun _ _ => LoopCall.afterFailures) fun _ _ hr => hr.linearized hA
  · have hco : ¬mode &&& F.O_CREATE_ONLY ≠ 0 := fun h => h1 (and_or_ne_zero.2 (.inr h))
    have hoo : ¬mode &&& F.O_OPEN_ONLY ≠ 0 := fun h => h1 (and_or_ne_zero.2 (.inl h))
    rw [createModeToOsMode, if_neg h2, if_neg hco, if_neg hoo] at hc
    cases hc

/-! ## The atomic system -/

/-- Processes doing atomic opens on one name: the entry, and each process's result once it has
done its open. -/
structure AtomicSystem where
  store : Store
  results : List (Option (Bool × Option Error))

/-- An event of the atomic system: process `i` does its whole open at once, giving up when
`giveUp` and its kind allows it, or another party destroys or creates the object. -/
inductive AtomicEvent where
  | op (i : Nat) (giveUp : Bool)
  | destroy
  | create

namespace AtomicSystem

/-- `n` processes, none done yet, on the entry `s`. -/
def init (s : Store) (n : Nat) : AtomicSystem := ⟨s, List.replicate n none⟩

/-- One event, for processes of kinds `kinds`. An open by a process that is done, by no
process, or by a process whose mode is rejected changes nothing. -/
def step (kinds : List (Option OpenKind)) (sys : AtomicSystem) : AtomicEvent → AtomicSystem
  | .op i giveUp =>
    match kinds[i]?, sys.results[i]? with
    | some (some k), some none =>
      if giveUp = true ∧ k = .openOrCreate then
        ⟨sys.store, sys.results.set i (some (false, some .notExist))⟩
      else ⟨(atomicOpen k sys.store).2, sys.results.set i (some (atomicOpen k sys.store).1)⟩
    | _, _ => sys
  | .destroy => ⟨sys.store.destroy, sys.results⟩
  | .create => ⟨sys.store.create, sys.results⟩

/-- A run: the events in order. -/
def run (kinds : List (Option OpenKind)) (sys : AtomicSystem) (evs : List AtomicEvent) :
    AtomicSystem :=
  evs.foldl (step kinds) sys

@[simp] theorem run_nil (kinds : List (Option OpenKind)) (sys : AtomicSystem) :
    sys.run kinds [] = sys := rfl

theorem run_append (kinds : List (Option OpenKind)) (sys : AtomicSystem)
    (evs evs' : List AtomicEvent) :
    sys.run kinds (evs ++ evs') = (sys.run kinds evs).run kinds evs' :=
  List.foldl_append _ _ _ _

theorem step_op {kinds : List (Option OpenKind)} {sys : AtomicSystem} {i : Nat} {k : OpenKind}
    {r : Bool × Option Error} {s' : Store} (hk : kinds[i]? = some (some k))
    (hr : sys.results[i]? = some none) (hs : AtomicStep k sys.store r s') :
    sys.step kinds (.op i (decide (r = (false, some .notExist)))) =
      ⟨s', sys.results.set i (some r)⟩ := by
  simp only [step, hk, hr]
  rcases hs with hs | ⟨rfl, rfl, rfl⟩
  · rw [if_neg, ← hs]
    rintro ⟨hg, rfl⟩
    exact atomicOpen_openOrCreate_ne sys.store (by rw [← hs]; exact of_decide_eq_true hg)
  · rw [if_pos ⟨decide_eq_true rfl, rfl⟩]

end AtomicSystem

namespace Calls

/-- The result of a program that has returned. -/
def returned {α : Type} : Calls α → Option α
  | .ret a => some a
  | .call _ _ => none

end Calls

/-! ## The simulation -/

namespace System

variable {sys : System} {i : Nat}

/-- The atomic events a concrete event amounts to: the call after which process `i` has
returned is its whole open, given up when it returned `os.IsNotExist`; a call after which `i`
calls again is none; destroys and creates are themselves. -/
def atomicEvents (sys : System) : Event → List AtomicEvent
  | .call i =>
    match sys.procs[i]? with
    | some (.call f next) =>
      match next (sys.store.opener f).1 with
      | .ret r => [.op i (decide (r = (false, some .notExist)))]
      | .call _ _ => []
    | _ => []
  | .destroy => [.destroy]
  | .create => [.create]

/-- The atomic events of a run. -/
def atomicRun (sys : System) : List Event → List AtomicEvent
  | [] => []
  | e :: evs => sys.atomicEvents e ++ (sys.step e).atomicRun evs

theorem step_call {f : BitVec 64} {next : Option Error → Calls (Bool × Option Error)}
    (hp : sys.procs[i]? = some (.call f next)) :
    sys.step (.call i) = ⟨(sys.store.opener f).2, sys.procs.set i (next (sys.store.opener f).1),
      sys.trace ++ [⟨.proc i ⟨f, (sys.store.opener f).1⟩, sys.store, (sys.store.opener f).2,
        sys.destroys⟩]⟩ := by
  simp only [step, hp]

theorem step_call_of_not (hp : ∀ f next, sys.procs[i]? ≠ some (.call f next)) :
    sys.step (.call i) = sys ∧ sys.atomicEvents (.call i) = [] := by
  rcases hq : sys.procs[i]? with _ | _ | ⟨f, next⟩
  · simp [step, atomicEvents, hq]
  · simp [step, atomicEvents, hq]
  · exact absurd hq (hp f next)

/-- A call of a process whose calls so far and remaining program are those of a linearized open
ends the process with its atomic open, or fails and changes nothing. -/
theorem call_cases {f : BitVec 64} {next : Option Error → Calls (Bool × Option Error)}
    {k : OpenKind} (hp : sys.procs[i]? = some (.call f next))
    (hi : ProcInv AfterFailures (Linearized k) i sys) :
    (∃ r, next (sys.store.opener f).1 = .ret r ∧
      AtomicStep k sys.store r (sys.store.opener f).2) ∨
    ((sys.store.opener f).2 = sys.store ∧
      ∃ f' next', next (sys.store.opener f).1 = .call f' next') := by
  have hs := (hi.2 _ hp).2 (sys.store.opener f).1
  cases hn : next (sys.store.opener f).1 with
  | ret r =>
    rw [hn] at hs
    obtain ⟨rest, c, hrc, hc⟩ := hs
    obtain ⟨-, hc'⟩ := List.append_inj' hrc rfl
    cases List.singleton_inj.1 hc'
    exact .inl ⟨r, rfl, hc _ rfl⟩
  | call f' next' =>
    rw [hn] at hs
    refine .inr ⟨Store.opener_err fun he => hs.1 ⟨f, _⟩ ?_ he, f', next', rfl⟩
    simp

/-- The atomic system `abs` stands for `sys`, whose processes have the kinds `kinds`: the same
entry; no process beyond the kinds; a process whose mode is rejected has returned an error
without a call; every other process has in `abs` the result it has returned in `sys`, and its
calls and remaining program are those of a linearized open. -/
structure Simulates (kinds : List (Option OpenKind)) (sys : System) (abs : AtomicSystem) :
    Prop where
  store : abs.store = sys.store
  beyond : ∀ i : Nat, kinds[i]? = none → sys.procs[i]? = none
  rejected : ∀ i : Nat, kinds[i]? = some none →
    sys.log i = [] ∧ ∃ e, sys.procs[i]? = some (.ret (false, some e))
  results : ∀ (i : Nat) k, kinds[i]? = some (some k) →
    abs.results[i]? = (sys.procs[i]?).map Calls.returned
  linearized : ∀ (i : Nat) k, kinds[i]? = some (some k) →
    ProcInv AfterFailures (Linearized k) i sys

variable {kinds : List (Option OpenKind)} {abs : AtomicSystem}

theorem Simulates.frame (h : Simulates kinds sys abs) {sys' : System} {abs' : AtomicSystem}
    (hs : abs'.store = sys'.store) (hp : sys'.procs = sys.procs) (hl : ∀ j, sys'.log j = sys.log j)
    (hr : abs'.results = abs.results)
    (hi : ∀ j k, kinds[j]? = some (some k) → ProcInv AfterFailures (Linearized k) j sys') :
    Simulates kinds sys' abs' where
  store := hs
  beyond := by simpa only [hp] using h.beyond
  rejected := by simpa only [hp, hl] using h.rejected
  results := by simpa only [hp, hr] using h.results
  linearized := hi

theorem Simulates.kind (h : Simulates kinds sys abs) {f : BitVec 64}
    {next : Option Error → Calls (Bool × Option Error)} (hp : sys.procs[i]? = some (.call f next)) :
    ∃ k, kinds[i]? = some (some k) := by
  rcases hk : kinds[i]? with _ | _ | k
  · rw [h.beyond i hk] at hp
    cases hp
  · obtain ⟨-, e, he⟩ := h.rejected i hk
    rw [he] at hp
    cases hp
  · exact ⟨k, rfl⟩

/-- The call of process `i` keeps the simulation: the atomic system does `i`'s open when the
call ends `i`, and nothing otherwise. -/
theorem Simulates.call (h : Simulates kinds sys abs) {f : BitVec 64}
    {next : Option Error → Calls (Bool × Option Error)} (hp : sys.procs[i]? = some (.call f next)) :
    Simulates kinds (sys.step (.call i)) (abs.run kinds (sys.atomicEvents (.call i))) := by
  obtain ⟨k, hk⟩ := h.kind hp
  have hres : abs.results[i]? = some none := by rw [h.results i k hk, hp]; rfl
  have hother : ∀ j, j ≠ i → (sys.step (.call i)).procs[j]? = sys.procs[j]? ∧
      (sys.step (.call i)).log j = sys.log j := fun j hj => by
    rcases sys.step_proc (.call i) j with ⟨hp', hl, -⟩ | ⟨-, -, -, -, he, -⟩
    · exact ⟨hp', hl⟩
    · exact absurd (Event.call.inj he) (Ne.symm hj)
  have hkind : ∀ j, kinds[j]? = none ∨ kinds[j]? = some none → j ≠ i := by
    rintro j (hj | hj) rfl <;> rw [hk] at hj <;> cases hj
  have hnew : (sys.step (.call i)).procs[i]? = some (next (sys.store.opener f).1) := by
    rw [step_call hp, List.getElem?_set_self (List.getElem?_eq_some_iff.1 hp).1]
  -- the atomic system does the open of `i` when the call ends `i`, and nothing otherwise
  obtain ⟨hs, hr, hri⟩ : (abs.run kinds (sys.atomicEvents (.call i))).store =
        (sys.step (.call i)).store ∧
      (∀ j, j ≠ i → (abs.run kinds (sys.atomicEvents (.call i))).results[j]? = abs.results[j]?) ∧
      (abs.run kinds (sys.atomicEvents (.call i))).results[i]? =
        some (next (sys.store.opener f).1).returned := by
    rcases call_cases hp (h.linearized i k hk) with ⟨r, hn, hst⟩ | ⟨hs, f', next', hn⟩
    · have hev : sys.atomicEvents (.call i) = [.op i (decide (r = (false, some .notExist)))] := by
        simp only [atomicEvents, hp, hn]
      rw [hev, AtomicSystem.run, List.foldl_cons, List.foldl_nil,
        AtomicSystem.step_op hk hres (by rw [h.store]; exact hst), step_call hp, hn]
      exact ⟨rfl, fun j hj => List.getElem?_set_ne (Ne.symm hj),
        List.getElem?_set_self (List.getElem?_eq_some_iff.1 hres).1⟩
    · have hev : sys.atomicEvents (.call i) = [] := by simp only [atomicEvents, hp, hn]
      rw [hev, AtomicSystem.run_nil, hn, h.store, step_call hp, hs]
      exact ⟨rfl, fun _ _ => rfl, hres⟩
  refine ⟨hs, fun j hj => ?_, fun j hj => ?_, fun j k' hj => ?_,
    fun j k' hj => (h.linearized j k' hj).step _⟩
  · rw [(hother j (hkind j (.inl hj))).1]
    exact h.beyond j hj
  · have hji := hkind j (.inr hj)
    rw [(hother j hji).1, (hother j hji).2]
    exact h.rejected j hj
  · by_cases hji : j = i
    · subst hji
      rw [hri, hnew]
      rfl
    · rw [hr j hji, (hother j hji).1]
      exact h.results j k' hj

/-- Every event keeps the simulation, the atomic system taking the event's atomic events. -/
theorem Simulates.step (h : Simulates kinds sys abs) (e : Event) :
    Simulates kinds (sys.step e) (abs.run kinds (sys.atomicEvents e)) := by
  cases e with
  | call i =>
    by_cases hp : ∃ f next, sys.procs[i]? = some (.call f next)
    · obtain ⟨f, next, hp⟩ := hp
      exact h.call hp
    · obtain ⟨hs, he⟩ := step_call_of_not fun f next h' => hp ⟨f, next, h'⟩
      rw [hs, he]
      exact h
  | destroy =>
    exact h.frame (show abs.store.destroy = sys.store.destroy by rw [h.store]) rfl
      (fun j => ((sys.step_proc .destroy j).resolve_right nofun).2.1) rfl
      fun j k hj => (h.linearized j k hj).step _
  | create =>
    exact h.frame (show abs.store.create = sys.store.create by rw [h.store]) rfl
      (fun j => ((sys.step_proc .create j).resolve_right nofun).2.1) rfl
      fun j k hj => (h.linearized j k hj).step _

/-- The simulation holds along every run. -/
theorem Simulates.run (h : Simulates kinds sys abs) (evs : List Event) :
    Simulates kinds (sys.run evs) (abs.run kinds (sys.atomicRun evs)) := by
  induction evs generalizing sys abs with
  | nil => exact h
  | cons e evs ih =>
    rw [atomicRun, AtomicSystem.run_append]
    exact ih (h.step e)

end System

/-- At the start, the atomic system of the same processes stands for `race`'s system. -/
theorem race_simulates_init (F : OpenFlags) (s : Store) (modes : List (BitVec 64)) :
    System.Simulates (modes.map (openKind F)) (System.init s (modes.map (openOrCreateFile F)))
      (AtomicSystem.init s modes.length) where
  store := rfl
  beyond i hi := by
    simpa [System.init, List.getElem?_map] using hi
  rejected i hi := by
    rw [List.getElem?_map] at hi
    obtain ⟨mode, hm, hk⟩ := Option.map_eq_some'.1 hi
    obtain ⟨e, he⟩ := openKind_eq_none.1 hk
    rcases openOrCreateFile_first F mode with ⟨m, hm', -⟩ | ⟨-, -, e', he'⟩
    · rw [hm'] at he
      cases he
    · exact ⟨rfl, e', by simp [System.init, List.getElem?_map, hm, he']⟩
  results i k hi := by
    rw [List.getElem?_map] at hi
    obtain ⟨mode, hm, hk⟩ := Option.map_eq_some'.1 hi
    have hlt := (List.getElem?_eq_some_iff.1 hm).1
    obtain ⟨m, hm', f, next, hc⟩ := (openOrCreateFile_first F mode).resolve_right
      fun ⟨e, he, _⟩ => absurd (openKind_eq_none.2 ⟨e, he⟩) (by rw [hk]; nofun)
    show (List.replicate modes.length none)[i]? =
      ((modes.map (openOrCreateFile F))[i]?).map Calls.returned
    rw [List.getElem?_replicate, if_pos hlt, List.getElem?_map, hm, Option.map_some',
      Option.map_some', hc]
    rfl
  linearized i k hi := by
    refine System.ProcInv.init fun p hp => ?_
    rw [List.getElem?_map] at hi hp
    obtain ⟨mode, hm, hk⟩ := Option.map_eq_some'.1 hi
    rw [hm] at hp
    cases hp
    exact openOrCreateFile_linearized hk

/-- Every run of processes running `openOrCreateFile` on one name, with any modes and any
interleaving with destroys and creates by other parties, is a run of the atomic system: run on
the atomic events of the run (the call that ends a process being its whole open), the atomic
system ends with the same entry, and every process whose mode is accepted has the result it
returned, or none while it is still running. A process whose mode is rejected returned an error
without calling the opener. -/
theorem race_refines (F : OpenFlags) (s : Store) (modes : List (BitVec 64)) (evs : List Event) :
    let sys := race F s modes evs
    let abs := (AtomicSystem.init s modes.length).run (modes.map (openKind F))
      ((System.init s (modes.map (openOrCreateFile F))).atomicRun evs)
    abs.store = sys.store ∧
    (∀ (i : Nat) k, (modes.map (openKind F))[i]? = some (some k) →
      abs.results[i]? = (sys.procs[i]?).map Calls.returned) ∧
    (∀ i : Nat, (modes.map (openKind F))[i]? = some none →
      sys.log i = [] ∧ ∃ e, sys.procs[i]? = some (.ret (false, some e))) :=
  have h := (race_simulates_init F s modes).run evs
  ⟨h.store, h.results, h.rejected⟩

end GoIpc
