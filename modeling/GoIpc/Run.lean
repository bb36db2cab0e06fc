import GoIpc.System

/-!
# Invariants of runs

Two invariants hold along every run of the system, each proved once for one event
(`ProcInv.step`, `TraceInv.step`) and lifted to runs by induction on the events.

* `ProcInv P Q i`: the calls process `i` made so far were allowed by `P`, and its remaining
  program satisfies `Calls.Sat P Q` after them. Nothing else in the run touches it.
* `TraceInv s0`: every step obeyed the namespace, incarnation numbers started at `s0.next` and
  never went back, every step's stamp is the number of destroys before it, and any two steps
  are ordered by `Act.Precedes`: a name found absent after a step that left it present was
  destroyed in between.
-/

namespace GoIpc

namespace Act

variable {a : Act}

/-- A legal step leaves the entry as it was, creates a new incarnation under an absent name,
or is a destroy. -/
theorem Legal.cases (h : a.Legal) :
    a.after = a.before ∨ (a.before.entry = none ∧ a.after = a.before.fresh) ∨
      (a.isDestroy = true ∧ a.after = a.before.destroy) := by
  rcases a with ⟨⟨i, c⟩ | _ | _, before, after, stamp⟩ <;> simp only [Legal] at h
  · rcases Store.opener_cases before c.flags with h' | ⟨he, h'⟩ <;> rw [h] at h'
    · exact .inl h'
    · exact .inr (.inl ⟨he, (Prod.mk.inj h').2⟩)
  · exact .inr (.inr ⟨rfl, h⟩)
  · rcases Store.create_cases before with h' | ⟨he, h'⟩ <;> rw [← h] at h'
    · exact .inl h'
    · exact .inr (.inl ⟨he, h'⟩)

theorem Legal.next_le (h : a.Legal) : a.before.next ≤ a.after.next := by
  rcases h.cases with h' | ⟨-, h'⟩ | ⟨-, h'⟩ <;> rw [h'] <;> simp

/-- Only a destroy makes a present name absent. -/
theorem Legal.absent (h : a.Legal) (hd : a.isDestroy = false) (ha : a.after.entry = none) :
    a.before.entry = none := by
  rcases h.cases with h' | ⟨he, -⟩ | ⟨hd', -⟩
  · rwa [h'] at ha
  · exact he
  · rw [hd] at hd'
    cases hd'

end Act

namespace System

variable {sys : System}

/-! ## The processes -/

/-- Process `i` made its calls where `P` allowed them, and its remaining program satisfies
`Sat P Q` after them. -/
def ProcInv (P : List Call → BitVec 64 → Prop) (Q : List Call → Bool × Option Error → Prop)
    (i : Nat) (sys : System) : Prop :=
  Made P (sys.log i) ∧ ∀ p, sys.procs[i]? = some p → p.Sat P Q (sys.log i)

variable {P : List Call → BitVec 64 → Prop} {Q : List Call → Bool × Option Error → Prop}
  {i : Nat}

theorem ProcInv.init {s : Store} {progs : List (Calls (Bool × Option Error))}
    (h : ∀ p, progs[i]? = some p → p.Sat P Q []) : ProcInv P Q i (System.init s progs) :=
  ⟨.nil, h⟩

theorem ProcInv.step (hi : ProcInv P Q i sys) (e : Event) : ProcInv P Q i (sys.step e) := by
  rcases sys.step_proc e i with ⟨hp, hl, _⟩ | ⟨f, next, err, hp, _, hp', hl⟩
  · rw [ProcInv, hl, hp]
    exact hi
  · have hs := hi.2 _ hp
    refine ⟨hl ▸ .snoc hi.1 hs.1, fun p hq => ?_⟩
    rw [hp'] at hq
    cases hq
    rw [hl]
    exact hs.2 err

theorem ProcInv.run (hi : ProcInv P Q i sys) (evs : List Event) : ProcInv P Q i (sys.run evs) := by
  induction evs generalizing sys with
  | nil => exact hi
  | cons e evs ih => exact ih (hi.step e)

/-- A process with no call left to make stays as it is. -/
theorem run_not_running (h : ∀ f next, sys.procs[i]? ≠ some (.call f next)) (evs : List Event) :
    (sys.run evs).procs[i]? = sys.procs[i]? := by
  induction evs generalizing sys with
  | nil => rfl
  | cons e evs ih =>
    rcases sys.step_proc e i with ⟨hp, -, -⟩ | ⟨f, next, -, hp, -⟩
    · rw [run_cons, ih (hp ▸ h), hp]
    · exact absurd hp (h f next)

/-- A process that still has a call to make made one call at each of its call events. -/
theorem length_log_run {f : BitVec 64} {next : Option Error → Calls (Bool × Option Error)}
    {evs : List Event} (h : (sys.run evs).procs[i]? = some (.call f next)) :
    ((sys.run evs).log i).length = (sys.log i).length + evs.count (.call i) := by
  induction evs generalizing sys with
  | nil => rfl
  | cons e evs ih =>
    rw [run_cons] at h ⊢
    rw [ih h, List.count_cons]
    rcases sys.step_proc e i with ⟨-, hl, hn⟩ | ⟨f', next', err, -, rfl, -, hl⟩
    · by_cases he : e = .call i
      · have := run_not_running (hn he) (e :: evs)
        rw [run_cons, h] at this
        exact absurd this.symm (hn he f next)
      · simp [hl, he]
    · simp [hl]
      omega

/-- A process of the system stays one. -/
theorem run_procs_ne_none (h : sys.procs[i]? ≠ none) (evs : List Event) :
    (sys.run evs).procs[i]? ≠ none := by
  induction evs generalizing sys with
  | nil => exact h
  | cons e evs ih =>
    rcases sys.step_proc e i with ⟨hp, -, -⟩ | ⟨f, next, err, -, -, hp, -⟩
    · exact ih (hp ▸ h)
    · exact ih (by rw [hp]; exact Option.some_ne_none _)

/-! ## The namespace -/

/-- The namespace facts of a run started on the entry `s0`. -/
structure TraceInv (s0 : Store) (sys : System) : Prop where
  legal : ∀ a ∈ sys.trace, a.Legal
  start_le : s0.next ≤ sys.store.next
  start : ∀ a ∈ sys.trace, s0.next ≤ a.before.next
  next_le : ∀ a ∈ sys.trace, a.after.next ≤ sys.store.next
  stamp_le : ∀ a ∈ sys.trace, a.stamp ≤ sys.destroys
  gap : ∀ a ∈ sys.trace, a.after.entry ≠ none → sys.store.entry = none → a.stamp < sys.destroys
  stamp_eq : ∀ pre a post, sys.trace = pre ++ a :: post → a.stamp = pre.countP Act.isDestroy
  ordered : sys.trace.Pairwise Act.Precedes

theorem TraceInv.init (s : Store) (progs : List (Calls (Bool × Option Error))) :
    TraceInv s (System.init s progs) where
  legal := by simp [System.init]
  start_le := Nat.le_refl _
  start := by simp [System.init]
  next_le := by simp [System.init]
  stamp_le := by simp [System.init]
  gap := by simp [System.init]
  stamp_eq := by simp [System.init]
  ordered := List.Pairwise.nil

theorem destroys_append {sys' : System} {a : Act} (h : sys'.trace = sys.trace ++ [a]) :
    sys'.destroys = sys.destroys + if a.isDestroy then 1 else 0 := by
  simp only [destroys, h, List.countP_append, List.countP_cons, List.countP_nil, Nat.zero_add]

/-- The last step of `t ++ [b]` has the stamp of `t`'s destroys; the stamps of `t` are kept. -/
theorem stamp_eq_append {t : List Act} {b : Act} (ht : ∀ pre a post, t = pre ++ a :: post →
    a.stamp = pre.countP Act.isDestroy) (hb : b.stamp = t.countP Act.isDestroy) :
    ∀ pre a post, t ++ [b] = pre ++ a :: post → a.stamp = pre.countP Act.isDestroy := by
  intro pre a post h
  rcases List.eq_nil_or_concat post with rfl | ⟨post', x, rfl⟩
  · obtain ⟨rfl, hab⟩ := List.append_inj' h rfl
    cases hab
    exact hb
  · rw [List.concat_eq_append, ← List.cons_append, ← List.append_assoc] at h
    exact ht pre a post' (List.append_inj' h rfl).1

theorem TraceInv.step {s0 : Store} (h : TraceInv s0 sys) (e : Event) :
    TraceInv s0 (sys.step e) := by
  rcases sys.step_trace e with he | ⟨a, hb, hst, hl, hs, ht⟩
  · rw [he]
    exact h
  have hd := destroys_append ht
  have hn : sys.store.next ≤ a.after.next := hb ▸ hl.next_le
  have hsd : sys.destroys ≤ (sys.step e).destroys := by rw [hd]; exact Nat.le_add_right _ _
  have hmem : ∀ b ∈ (sys.step e).trace, b ∈ sys.trace ∨ b = a := by
    rw [ht]
    simp
  constructor
  · exact fun b hb' => (hmem b hb').elim (h.legal b) fun hba => hba ▸ hl
  · exact hs ▸ Nat.le_trans h.start_le hn
  · exact fun b hb' => (hmem b hb').elim (h.start b) fun hba => hba ▸ hb ▸ h.start_le
  · exact fun b hb' => (hmem b hb').elim (fun hb' => hs ▸ Nat.le_trans (h.next_le b hb') hn)
      fun hba => hba ▸ hs ▸ Nat.le_refl _
  · exact fun b hb' => (hmem b hb').elim (fun hb' => Nat.le_trans (h.stamp_le b hb') hsd)
      fun hba => hba ▸ hst ▸ hsd
  · intro b hb' h1 h2
    rw [hs] at h2
    rcases hmem b hb' with hb' | rfl
    · cases hdes : a.isDestroy
      · rw [hd, hdes, if_neg Bool.false_ne_true, Nat.add_zero]
        exact h.gap b hb' h1 (hb ▸ hl.absent hdes h2)
      · rw [hd, hdes, if_pos rfl]
        exact Nat.lt_succ_of_le (h.stamp_le b hb')
    · exact absurd h2 h1
  · rw [ht]
    exact stamp_eq_append h.stamp_eq hst
  · rw [ht]
    refine List.pairwise_append.2 ⟨h.ordered, List.pairwise_singleton _ _, fun b hb' a' ha' => ?_⟩
    rw [List.mem_singleton] at ha'
    subst ha'
    exact ⟨hb ▸ h.next_le b hb', hst ▸ h.stamp_le b hb',
      fun h1 h2 => hst ▸ h.gap b hb' h1 (hb ▸ h2)⟩

theorem TraceInv.run {s0 : Store} (h : TraceInv s0 sys) (evs : List Event) :
    TraceInv s0 (sys.run evs) := by
  induction evs generalizing sys with
  | nil => exact h
  | cons e evs ih => exact ih (h.step e)

end System

end GoIpc
