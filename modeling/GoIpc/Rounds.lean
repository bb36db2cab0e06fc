import GoIpc.Incarnations

/-!
# The `O_OPEN_OR_CREATE` loop under destroys

A process runs `openOrCreateFile F mode` with `O_OPEN_OR_CREATE` set, neither `O_CREATE_ONLY`
nor `O_OPEN_ONLY`, and one access constant, while other processes and other parties create and
destroy the object (`race`). Its calls go round by round: an exclusive create, and when that
fails with `os.IsExist` a plain open, and when that fails with `os.IsNotExist` the next round.

* `Made.loopCall`: it makes at most `2 * attempts` calls, exclusive creates at even and plain
  opens at odd positions, against any opener (`openOrCreateFile_run_rounds`);
* `round_stamp`: a round that went on found the name present at its exclusive create and
  absent at its open, so a destroy came in between;
* `loopResult_namespace`: the loop returns no error, or `os.IsNotExist` after `attempts` rounds
  that each went on;
* `openOrCreateFile_rounds`: all of it for the process of a run (`LoopSpec`): `os.IsNotExist`
  comes with at least `attempts` destroys between its first and last call, and with no destroy
  between two of its calls it returns no error after at most two calls.
-/

namespace GoIpc

/-! ## The calls of the loop -/

/-- Call `j` of rounds that each went on to the next: an exclusive create that failed with
`os.IsExist` at even `j`, a plain open that failed with `os.IsNotExist` at odd `j`. -/
def roundCall (amode : BitVec 64) (j : Nat) : Call :=
  if j % 2 = 0 then ⟨amode ||| Os.O_CREATE ||| Os.O_EXCL, some .exist⟩ else ⟨amode, some .notExist⟩

@[simp] theorem roundCall_even (amode : BitVec 64) (k : Nat) :
    roundCall amode (2 * k) = ⟨amode ||| Os.O_CREATE ||| Os.O_EXCL, some .exist⟩ := by
  simp [roundCall]

@[simp] theorem roundCall_odd (amode : BitVec 64) (k : Nat) :
    roundCall amode (2 * k + 1) = ⟨amode, some .notExist⟩ := by
  simp [roundCall, Nat.add_mod]

/-- The calls of `k` rounds that went on are the first `2 * k` round calls. -/
theorem rounds_eq_map (amode : BitVec 64) (k : Nat) :
    rounds amode k = (List.range (2 * k)).map (roundCall amode) := by
  induction k with
  | zero => rfl
  | succ k ih =>
    rw [rounds, ih, Nat.mul_succ, List.range_succ, List.range_succ, List.map_append,
      List.map_append, List.append_assoc, List.map_singleton, List.map_singleton, roundCall_even,
      roundCall_odd]
    rfl

theorem getElem?_rounds {amode : BitVec 64} {k j : Nat} (h : j < 2 * k) :
    (rounds amode k)[j]? = some (roundCall amode j) := by
  rw [rounds_eq_map, List.getElem?_map, List.getElem?_range h]
  rfl

/-- Before each call of the loop its calls so far are the first ones of the rounds, and the
call has the flags of the round call at its position. -/
theorem LoopCall.rounds {amode : BitVec 64} {h : List Call} {f : BitVec 64}
    (hc : LoopCall amode h f) : h.length < 2 * attempts ∧ f = (roundCall amode h.length).flags ∧
      ∀ j < h.length, h[j]? = some (roundCall amode j) := by
  obtain ⟨k, hk, ⟨rfl, rfl⟩ | ⟨rfl, hf⟩⟩ := hc
  · exact ⟨by simpa using by omega, by simp, fun j hj => getElem?_rounds (by simpa using hj)⟩
  · have hr : GoIpc.rounds amode k ++ [⟨amode ||| Os.O_CREATE ||| Os.O_EXCL, some .exist⟩] =
        (List.range (2 * k + 1)).map (roundCall amode) := by
      rw [rounds_eq_map, List.range_succ, List.map_append, List.map_singleton, roundCall_even]
    rw [hr]
    refine ⟨by simp; omega, by simp [hf], fun j hj => ?_⟩
    rw [List.getElem?_map, List.getElem?_range (by simpa using hj)]
    rfl

/-- The calls the loop made so far: at most `2 * attempts`, each with the flags of the round
call at its position, and each but the last a round call that went on. -/
theorem Made.loopCall {amode : BitVec 64} {h : List Call} (hm : Made (LoopCall amode) h) :
    h.length ≤ 2 * attempts ∧ (∀ j c, h[j]? = some c → c.flags = (roundCall amode j).flags) ∧
      ∀ j, j + 1 < h.length → h[j]? = some (roundCall amode j) := by
  cases hm with
  | nil => simp
  | @snoc h c _ hc =>
    obtain ⟨hlen, hf, hpre⟩ := hc.rounds
    refine ⟨by simp; omega, fun j c' hj => ?_, fun j hj => ?_⟩
    · rw [List.getElem?_append] at hj
      split_ifs at hj with hlt
      · rw [hpre j hlt, Option.some_inj] at hj
        rw [← hj]
      · obtain ⟨d, rfl⟩ := Nat.exists_eq_add_of_le (Nat.not_lt.1 hlt)
        rw [Nat.add_sub_cancel_left] at hj
        rcases d with _ | d
        · obtain rfl : c = c' := Option.some_inj.1 hj
          exact hf
        · cases hj
    · rw [List.getElem?_append_left (by simpa using hj), hpre j (by simpa using hj)]

/-! ## Steps of one process -/

theorem Act.isBy_of_party {a : Act} {i : Nat} {c : Call} (h : a.party = .proc i c) :
    a.isBy i = true := by
  simp [Act.isBy, h]

theorem Act.isDestroy_of_party {a : Act} {i : Nat} {c : Call} (h : a.party = .proc i c) :
    a.isDestroy = false := by
  simp [Act.isDestroy, h]

namespace System

variable {sys : System} {s0 : Store} {i : Nat}

/-- Call `j` of process `i` is the call of its step `j`. -/
theorem acts_of_log {j : Nat} {c : Call} (h : (sys.log i)[j]? = some c) :
    ∃ a, (sys.acts i)[j]? = some a ∧ a ∈ sys.trace ∧ a.party = .proc i c := by
  rw [log, List.getElem?_map] at h
  obtain ⟨a, ha, rfl⟩ := Option.map_eq_some'.1 h
  exact ⟨a, ha, mem_acts.1 (List.getElem?_mem ha)⟩

theorem acts_of_mem_log {c : Call} (h : c ∈ sys.log i) :
    ∃ a ∈ sys.trace, a.party = .proc i c := by
  obtain ⟨a, ha, rfl⟩ := List.mem_map.1 h
  exact ⟨a, (mem_acts.1 ha).1, (mem_acts.1 ha).2⟩

/-- Of two steps of process `i`, the earlier precedes the later. -/
theorem acts_precedes (hT : TraceInv s0 sys) {j j' : Nat} {a b : Act} (hj : j < j')
    (ha : (sys.acts i)[j]? = some a) (hb : (sys.acts i)[j']? = some b) : a.Precedes b := by
  obtain ⟨hj1, rfl⟩ := List.getElem?_eq_some_iff.1 ha
  obtain ⟨hj2, rfl⟩ := List.getElem?_eq_some_iff.1 hb
  exact List.pairwise_iff_getElem.1 (hT.ordered.sublist (List.filter_sublist _)) j j' hj1 hj2 hj

/-- Two steps of process `i` split the trace around them. -/
theorem trace_split {xs ys zs : List Act} {a b : Act}
    (h : sys.acts i = xs ++ a :: (ys ++ b :: zs)) :
    ∃ pre mid post, sys.trace = pre ++ a :: (mid ++ b :: post) ∧ pre.filter (Act.isBy i) = xs ∧
      mid.filter (Act.isBy i) = ys ∧ post.filter (Act.isBy i) = zs := by
  obtain ⟨l1, l2, ht, h1, h2⟩ := List.filter_eq_append_iff.1 h
  obtain ⟨m1, m2, rfl, hm1, -, h3⟩ := List.filter_eq_cons_iff.1 h2
  obtain ⟨n1, n2, rfl, h4, h5⟩ := List.filter_eq_append_iff.1 h3
  obtain ⟨o1, o2, rfl, ho1, -, h6⟩ := List.filter_eq_cons_iff.1 h5
  refine ⟨l1 ++ m1, n1 ++ o1, o2, by simp [ht], ?_, ?_, h6⟩
  · rw [List.filter_append, h1, List.filter_eq_nil_iff.2 hm1, List.append_nil]
  · rw [List.filter_append, h4, List.filter_eq_nil_iff.2 ho1, List.append_nil]

/-- The stamps of two steps differ by the destroys between them. -/
theorem stamp_split (hT : TraceInv s0 sys) {pre mid post : List Act} {a b : Act}
    (h : sys.trace = pre ++ a :: (mid ++ b :: post)) (ha : a.isDestroy = false) :
    b.stamp = a.stamp + mid.countP Act.isDestroy := by
  rw [hT.stamp_eq pre a _ h, hT.stamp_eq (pre ++ a :: mid) b post (by simp [h]),
    List.countP_append, List.countP_cons, ha]
  simp

/-! ## Rounds in the namespace -/

/-- A round of process `i` that went on found the name present at its exclusive create and
absent at its open, so a destroy came in between. -/
theorem round_stamp (hT : TraceInv s0 sys) {amode : BitVec 64} (hA : amode &&& Os.O_CREATE = 0)
    {k : Nat} {a b : Act} (ha : (sys.acts i)[2 * k]? = some a)
    (hb : (sys.acts i)[2 * k + 1]? = some b)
    (hpa : a.party = .proc i (roundCall amode (2 * k)))
    (hpb : b.party = .proc i (roundCall amode (2 * k + 1))) :
    a.before.entry ≠ none ∧ b.before.entry = none ∧ a.stamp < b.stamp := by
  rw [roundCall_even] at hpa
  rw [roundCall_odd] at hpb
  rcases exclusive_step hT (List.getElem?_mem ha |> mem_acts.1).1 hpa (exclusive_create amode) with
    ⟨-, hpres, haf⟩ | ⟨he, -⟩
  · rcases (open_step hT (List.getElem?_mem hb |> mem_acts.1).1 hpb hA).2 with ⟨-, habs⟩ | ⟨he, -⟩
    · exact ⟨hpres, habs, (acts_precedes hT (Nat.lt_succ_self _) ha hb).2.2 (haf ▸ hpres) habs⟩
    · cases he
  · cases he

variable {amode : BitVec 64}

/-- In the namespace, the loop returns no error, or `os.IsNotExist` after `attempts` rounds that
each went on. -/
theorem loopResult_namespace (hT : TraceInv s0 sys) (hA : amode &&& Os.O_CREATE = 0)
    {r : Bool × Option Error} (hr : LoopResult amode (sys.log i) r) :
    r.2 = none ∨ (sys.log i = rounds amode attempts ∧ r = (false, some .notExist)) := by
  rcases hr with ⟨k, -, e, he, hlog, rfl⟩ | ⟨k, -, e, he, hlog, rfl⟩ | h
  · obtain ⟨a, hat, hap⟩ := acts_of_mem_log (c := ⟨amode ||| Os.O_CREATE ||| Os.O_EXCL, e⟩)
      (by rw [hlog]; exact List.mem_append_right _ (List.mem_singleton_self _))
    rcases exclusive_step hT hat hap (exclusive_create amode) with ⟨rfl, -⟩ | ⟨rfl, -⟩
    · cases he
    · exact .inl rfl
  · obtain ⟨a, hat, hap⟩ := acts_of_mem_log (c := ⟨amode, e⟩)
      (by rw [hlog]; exact List.mem_append_right _ (by simp))
    rcases (open_step hT hat hap hA).2 with ⟨rfl, -⟩ | ⟨rfl, -⟩
    · cases he
    · exact .inl rfl
  · exact .inr h

/-- Each of the `attempts` rounds that went on found the name present at its exclusive create
and absent at its open. -/
theorem round_acts (hT : TraceInv s0 sys) (hA : amode &&& Os.O_CREATE = 0)
    (hlog : sys.log i = rounds amode attempts) {k : Nat} (hk : k < attempts) :
    ∃ a b, (sys.acts i)[2 * k]? = some a ∧ (sys.acts i)[2 * k + 1]? = some b ∧
      a.before.entry ≠ none ∧ b.before.entry = none ∧ a.stamp < b.stamp := by
  obtain ⟨a, ha, -, hpa⟩ := acts_of_log (hlog ▸ getElem?_rounds (j := 2 * k) (by omega))
  obtain ⟨b, hb, -, hpb⟩ := acts_of_log (hlog ▸ getElem?_rounds (j := 2 * k + 1) (by omega))
  exact ⟨a, b, ha, hb, round_stamp hT hA ha hb hpa hpb⟩

/-- After `attempts` rounds that each went on, the open of round `k` came more than `k`
destroys after the first call. -/
theorem rounds_stamps (hT : TraceInv s0 sys) (hA : amode &&& Os.O_CREATE = 0)
    (hlog : sys.log i = rounds amode attempts) {a0 : Act} (h0 : (sys.acts i)[0]? = some a0) :
    ∀ k < attempts, ∀ b, (sys.acts i)[2 * k + 1]? = some b → a0.stamp + k < b.stamp := by
  intro k
  induction k with
  | zero =>
    intro hk b hb
    obtain ⟨a, b', ha, hb', -, -, hlt⟩ := round_acts hT hA hlog hk
    obtain rfl := Option.some_inj.1 (ha.symm.trans h0)
    obtain rfl := Option.some_inj.1 (hb'.symm.trans hb)
    exact hlt
  | succ k ih =>
    intro hk b hb
    obtain ⟨-, b', -, hb', -, -, -⟩ := round_acts hT hA hlog (k := k) (by omega)
    obtain ⟨a, b'', ha, hb'', -, -, hlt⟩ := round_acts hT hA hlog hk
    obtain rfl := Option.some_inj.1 (hb''.symm.trans hb)
    have hle := (acts_precedes hT (by omega) hb' ha).2.1
    have := ih (by omega) b' hb'
    omega

/-- After `attempts` rounds that each went on, at least `attempts` destroys lie between the
first and the last step of process `i`. -/
theorem rounds_destroys (hT : TraceInv s0 sys) (hA : amode &&& Os.O_CREATE = 0)
    (hlog : sys.log i = rounds amode attempts) :
    ∃ pre a mid b post, sys.trace = pre ++ a :: (mid ++ b :: post) ∧ a.isBy i = true ∧
      b.isBy i = true ∧ (∀ x ∈ pre, x.isBy i = false) ∧ (∀ x ∈ post, x.isBy i = false) ∧
      attempts ≤ mid.countP Act.isDestroy := by
  have hlen : (sys.acts i).length = 2 * attempts := by
    rw [← List.length_map _ Act.call, ← log, hlog, length_rounds]
  rcases List.eq_nil_or_concat (sys.acts i) with h | ⟨L, b, h⟩
  · rw [h] at hlen
    cases hlen
  rcases L with _ | ⟨a, mid⟩
  · rw [h] at hlen
    cases hlen
  rw [List.concat_eq_append] at h
  have hl : (sys.acts i)[2 * (attempts - 1) + 1]? = some b := by
    rw [show 2 * (attempts - 1) + 1 = (sys.acts i).length - 1 by rw [hlen]; rfl,
      ← List.getLast?_eq_getElem?, h, List.getLast?_concat]
  have hst := rounds_stamps hT hA hlog (show (sys.acts i)[0]? = some a by rw [h]; simp)
    (attempts - 1) (by decide) b hl
  have hab : a.isBy i = true ∧ b.isBy i = true := by
    constructor <;> refine (List.mem_filter.1 (?_ : _ ∈ sys.acts i)).2 <;> simp [h]
  obtain ⟨pre, mid', post, ht, hpre, -, hpost⟩ := trace_split
    (show sys.acts i = [] ++ a :: (mid ++ [b]) from h)
  have hcount := stamp_split hT ht (Act.isDestroy_of_party (Act.isBy_iff.1 hab.1))
  refine ⟨pre, a, mid', b, post, ht, hab.1, hab.2, fun x hx => ?_, fun x hx => ?_, ?_⟩
  · simpa using List.filter_eq_nil_iff.1 hpre x hx
  · simpa using List.filter_eq_nil_iff.1 hpost x hx
  · have : 0 < attempts := by decide
    omega

/-- With no destroy between two steps of process `i`, its first round does not go on: the name
cannot be present at its exclusive create and absent at its open. -/
theorem first_round_stuck (hT : TraceInv s0 sys) (hA : amode &&& Os.O_CREATE = 0)
    (hnd : ∀ pre a mid b post, sys.trace = pre ++ a :: (mid ++ b :: post) → a.isBy i = true →
      b.isBy i = true → mid.countP Act.isDestroy = 0)
    (h0 : (sys.log i)[0]? = some (roundCall amode 0))
    (h1 : (sys.log i)[1]? = some (roundCall amode 1)) : False := by
  obtain ⟨a, ha, -, hpa⟩ := acts_of_log h0
  obtain ⟨b, hb, -, hpb⟩ := acts_of_log h1
  have hlt := (round_stamp hT hA (k := 0) ha hb hpa hpb).2.2
  obtain ⟨rest, hacts⟩ : ∃ rest, sys.acts i = a :: b :: rest := by
    rcases hl : sys.acts i with _ | ⟨x, _ | ⟨y, rest⟩⟩ <;> rw [hl] at ha hb
    · simp at ha
    · simp at hb
    · simp only [List.getElem?_cons_zero, List.getElem?_cons_succ, Option.some_inj] at ha hb
      exact ⟨rest, by rw [ha, hb]⟩
  obtain ⟨pre, mid, post, ht, -, -, -⟩ := trace_split
    (show sys.acts i = [] ++ a :: ([] ++ b :: rest) from hacts)
  rw [stamp_split hT ht (Act.isDestroy_of_party hpa),
    hnd pre a mid b post ht (Act.isBy_of_party hpa) (Act.isBy_of_party hpb)] at hlt
  exact Nat.lt_irrefl _ hlt

/-- With no destroy between two steps of process `i`, the loop makes at most two calls, returns
no error, and is still running only before its second call. -/
theorem loop_no_destroy (hT : TraceInv s0 sys) (hA : amode &&& Os.O_CREATE = 0)
    (hP : ProcInv (LoopCall amode) (LoopResult amode) i sys)
    (hnd : ∀ pre a mid b post, sys.trace = pre ++ a :: (mid ++ b :: post) → a.isBy i = true →
      b.isBy i = true → mid.countP Act.isDestroy = 0) :
    (sys.log i).length ≤ 2 ∧ (∀ r, sys.procs[i]? = some (.ret r) → r.2 = none) ∧
      ∀ f next, sys.procs[i]? = some (.call f next) → (sys.log i).length ≤ 1 := by
  have hstuck := first_round_stuck hT hA hnd
  refine ⟨Nat.le_of_not_lt fun hlt => ?_, fun r hr => ?_,
    fun f next hr => Nat.le_of_not_lt fun hlt => ?_⟩
  · have h := (Made.loopCall hP.1).2.2
    exact hstuck (h 0 (by omega)) (h 1 (by omega))
  · rcases loopResult_namespace hT hA (hP.2 _ hr) with h | ⟨hlog, -⟩
    · exact h
    · rw [hlog] at hstuck
      exact (hstuck (getElem?_rounds (by decide)) (getElem?_rounds (by decide))).elim
  · have h := (hP.2 _ hr).1.rounds.2.2
    exact hstuck (h 0 (by omega)) (h 1 (by omega))

end System

/-! ## The process of a run -/

/-- What process `i` of the run `sys`, after the events `evs`, has done running the
`O_OPEN_OR_CREATE` loop with the access flag `amode`. -/
structure LoopSpec (amode : BitVec 64) (evs : List Event) (i : Nat) (sys : System) : Prop where
  /-- At most `2 * attempts` calls. -/
  length_le : (sys.log i).length ≤ 2 * attempts
  /-- Exclusive creates at even positions, plain opens at odd ones. -/
  alternate : ∀ j c, (sys.log i)[j]? = some c → c.flags = (roundCall amode j).flags
  /-- `os.IsNotExist` only after `attempts` rounds that each went on, each of which found the
  name present at its exclusive create and absent at its open, with at least `attempts`
  destroys between the first and the last call. -/
  notExist : ∀ c e, sys.procs[i]? = some (.ret (c, e)) → isNotExist e = true →
    sys.log i = rounds amode attempts ∧
    (∀ k < attempts, ∃ a b, (sys.acts i)[2 * k]? = some a ∧ (sys.acts i)[2 * k + 1]? = some b ∧
      a.before.entry ≠ none ∧ b.before.entry = none) ∧
    ∃ pre a mid b post, sys.trace = pre ++ a :: (mid ++ b :: post) ∧ a.isBy i = true ∧
      b.isBy i = true ∧ (∀ x ∈ pre, x.isBy i = false) ∧ (∀ x ∈ post, x.isBy i = false) ∧
      attempts ≤ mid.countP Act.isDestroy
  /-- With no destroy between two of its calls: at most two calls, no error, and a result once
  it was scheduled twice. -/
  no_destroy : (∀ pre a mid b post, sys.trace = pre ++ a :: (mid ++ b :: post) →
      a.isBy i = true → b.isBy i = true → mid.countP Act.isDestroy = 0) →
    (sys.log i).length ≤ 2 ∧ (∀ r, sys.procs[i]? = some (.ret r) → r.2 = none) ∧
    (2 ≤ evs.count (.call i) → ∃ c, sys.procs[i]? = some (.ret (c, none)))

section Loop

variable {F : OpenFlags} {s : Store} {modes : List (BitVec 64)} {evs : List Event} {i : Nat}
  {mode amode : BitVec 64}

/-- With `O_OPEN_OR_CREATE`, neither `O_CREATE_ONLY` nor `O_OPEN_ONLY`, and the one access
constant `a.1`, `openOrCreateFile` is the loop with the access flag `a.2`. -/
theorem openOrCreateFile_eq_loop (hOC : mode &&& F.O_OPEN_OR_CREATE ≠ 0)
    (hCO : mode &&& F.O_CREATE_ONLY = 0) (hOO : mode &&& F.O_OPEN_ONLY = 0)
    {a : BitVec 64 × BitVec 64} (hA : setIn mode F.accessTable = [a]) :
    a.2 &&& Os.O_CREATE = 0 ∧ openOrCreateFile F mode = openOrCreateLoop a.2 attempts none := by
  have h1 : ¬mode &&& (F.O_OPEN_ONLY ||| F.O_CREATE_ONLY) ≠ 0 := by
    rw [and_or_ne_zero, hCO, hOO]
    exact fun h => h.elim (· rfl) (· rfl)
  have ha : accessModeToOsMode F mode = .ok a.2 := accessModeToOsMode_eq_ok.2 ⟨a, hA, rfl⟩
  exact ⟨accessModeToOsMode_create ha, openOrCreateFile_of_openOrCreate h1 hOC ha⟩

theorem race_loopInv (hi : modes[i]? = some mode)
    (hl : openOrCreateFile F mode = openOrCreateLoop amode attempts none) :
    System.ProcInv (LoopCall amode) (LoopResult amode) i (race F s modes evs) := by
  refine (System.ProcInv.init fun p hp => ?_).run evs
  rw [List.getElem?_map, hi, Option.map_some', Option.some_inj] at hp
  rw [← hp, hl]
  exact openOrCreateLoop_sat amode attempts 0 none (Nat.zero_add _)
    fun h => absurd h (Nat.lt_irrefl 0)

/-- A process of a run that was scheduled twice while running made two calls. -/
theorem race_scheduled (hi : modes[i]? = some mode) (hc : 2 ≤ evs.count (.call i))
    (hrun : ∀ f next, (race F s modes evs).procs[i]? = some (.call f next) →
      ((race F s modes evs).log i).length ≤ 1) :
    ∃ r, (race F s modes evs).procs[i]? = some (.ret r) := by
  have hne : (race F s modes evs).procs[i]? ≠ none :=
    System.run_procs_ne_none (by simp [System.init, hi]) evs
  obtain ⟨p, hp⟩ := Option.ne_none_iff_exists'.1 hne
  cases p with
  | ret r => exact ⟨r, hp⟩
  | call f next =>
    have hl := System.length_log_run hp
    have := hrun f next hp
    rw [race, hl] at this
    exact absurd this (by simp [System.log, System.acts, System.init]; omega)

end Loop

/-- A process running `openOrCreateFile F mode` with `O_OPEN_OR_CREATE` set, neither
`O_CREATE_ONLY` nor `O_OPEN_ONLY`, and the one access constant `a.1`, among any other processes
and any creates and destroys by other parties: it makes at most `2 * attempts` calls, exclusive
creates (`a.2|O_CREATE|O_EXCL`) and plain opens (`a.2`) in turn; it returns `os.IsNotExist` only
after `attempts` rounds that each found the name present at the exclusive create and absent at
the open, with at least `attempts` destroys between its first and last call; with no destroy
between two of its calls it returns no error after at most two calls. -/
theorem openOrCreateFile_rounds (F : OpenFlags) (mode : BitVec 64) (a : BitVec 64 × BitVec 64)
    (hOC : mode &&& F.O_OPEN_OR_CREATE ≠ 0) (hCO : mode &&& F.O_CREATE_ONLY = 0)
    (hOO : mode &&& F.O_OPEN_ONLY = 0) (hA : setIn mode F.accessTable = [a]) (s : Store)
    (modes : List (BitVec 64)) (i : Nat) (hi : modes[i]? = some mode) (evs : List Event) :
    LoopSpec a.2 evs i (race F s modes evs) := by
  obtain ⟨hAC, hl⟩ := openOrCreateFile_eq_loop hOC hCO hOO hA
  have hP : System.ProcInv (LoopCall a.2) (LoopResult a.2) i (race F s modes evs) :=
    race_loopInv hi hl
  have hT := race_traceInv F s modes evs
  have hm := Made.loopCall hP.1
  refine ⟨hm.1, hm.2.1, fun c e hr he => ?_, fun hnd => ?_⟩
  · rcases System.loopResult_namespace hT hAC (hP.2 _ hr) with h | ⟨hlog, -⟩
    · rw [show e = none from h] at he
      cases he
    · exact ⟨hlog, fun k hk => (System.round_acts hT hAC hlog hk).imp fun _ ⟨b, h⟩ =>
        ⟨b, h.1, h.2.1, h.2.2.1, h.2.2.2.1⟩, System.rounds_destroys hT hAC hlog⟩
  · obtain ⟨hlen, hret, hrun⟩ := System.loop_no_destroy hT hAC hP hnd
    refine ⟨hlen, hret, fun hc => ?_⟩
    obtain ⟨r, hr⟩ := race_scheduled hi hc hrun
    exact ⟨r.1, by rw [hr, ← hret r hr]⟩

/-- Against any opener, the `O_OPEN_OR_CREATE` branch makes at most `2 * attempts` calls,
exclusive creates at even and plain opens at odd positions, and each call but the last is a
round call that went on: an exclusive create that failed with `os.IsExist`, or a plain open
that failed with `os.IsNotExist`. -/
theorem openOrCreateFile_run_rounds (F : OpenFlags) (mode : BitVec 64)
    (a : BitVec 64 × BitVec 64) (hOC : mode &&& F.O_OPEN_OR_CREATE ≠ 0)
    (hCO : mode &&& F.O_CREATE_ONLY = 0) (hOO : mode &&& F.O_OPEN_ONLY = 0)
    (hA : setIn mode F.accessTable = [a]) (opener : List Call → BitVec 64 → Option Error) :
    ((openOrCreateFile F mode).run opener []).2.length ≤ 2 * attempts ∧
      (∀ j c, ((openOrCreateFile F mode).run opener []).2[j]? = some c →
        c.flags = (roundCall a.2 j).flags) ∧
      ∀ j, j + 1 < ((openOrCreateFile F mode).run opener []).2.length →
        ((openOrCreateFile F mode).run opener []).2[j]? = some (roundCall a.2 j) := by
  rw [(openOrCreateFile_eq_loop hOC hCO hOO hA).2]
  exact Made.loopCall ((openOrCreateLoop_sat a.2 attempts 0 none (Nat.zero_add _)
    fun h => absurd h (Nat.lt_irrefl 0)).run opener .nil).2

theorem openOrCreateFile_run_rounds_readwrite :
    (0x21 : BitVec 64) &&& OpenFlags.bits.O_OPEN_OR_CREATE ≠ 0 ∧
      (0x21 : BitVec 64) &&& OpenFlags.bits.O_CREATE_ONLY = 0 ∧
      (0x21 : BitVec 64) &&& OpenFlags.bits.O_OPEN_ONLY = 0 ∧
      setIn 0x21 OpenFlags.bits.accessTable = [(0x20, Os.O_RDWR)] ∧
      ((openOrCreateFile OpenFlags.bits 0x21).run (fun _ _ => none) []).2.length ≤ 2 * attempts ∧
      (∀ j c, ((openOrCreateFile OpenFlags.bits 0x21).run (fun _ _ => none) []).2[j]? = some c →
        c.flags = (roundCall Os.O_RDWR j).flags) ∧
      ∀ j, j + 1 < ((openOrCreateFile OpenFlags.bits 0x21).run (fun _ _ => none) []).2.length →
        ((openOrCreateFile OpenFlags.bits 0x21).run (fun _ _ => none) []).2[j]? =
          some (roundCall Os.O_RDWR j) :=
  ⟨by decide, by decide, by decide, by decide,
    openOrCreateFile_run_rounds OpenFlags.bits 0x21 (0x20, Os.O_RDWR) (by decide) (by decide)
      (by decide) (by decide) fun _ _ => none⟩

theorem openOrCreateFile_rounds_readwrite :
    (0x21 : BitVec 64) &&& OpenFlags.bits.O_OPEN_OR_CREATE ≠ 0 ∧
      (0x21 : BitVec 64) &&& OpenFlags.bits.O_CREATE_ONLY = 0 ∧
      (0x21 : BitVec 64) &&& OpenFlags.bits.O_OPEN_ONLY = 0 ∧
      setIn 0x21 OpenFlags.bits.accessTable = [(0x20, Os.O_RDWR)] ∧
      [(0x21 : BitVec 64)][0]? = some 0x21 ∧
      LoopSpec Os.O_RDWR [.create, .call 0, .destroy, .call 0, .call 0] 0
        (race OpenFlags.bits ⟨none, 0, nofun⟩ [0x21] [.create, .call 0, .destroy, .call 0, .call 0]) ∧
      (race OpenFlags.bits ⟨none, 0, nofun⟩ [0x21]
          [.create, .call 0, .destroy, .call 0, .call 0]).log 0 =
        rounds Os.O_RDWR 1 ++ [⟨Os.O_RDWR ||| Os.O_CREATE ||| Os.O_EXCL, none⟩] :=
  ⟨by decide, by decide, by decide, by decide, rfl,
    openOrCreateFile_rounds OpenFlags.bits 0x21 (0x20, Os.O_RDWR) (by decide) (by decide)
      (by decide) (by decide) ⟨none, 0, nofun⟩ [0x21] 0 rfl _, by decide⟩

end GoIpc
