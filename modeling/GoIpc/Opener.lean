import GoIpc.Mode

/-!
# Opener calls

`openOrCreateFile(opener, mode)` talks to the outside world only through the callback
`opener func(int) error`. It is modelled as a program `Calls α`: a tree that either returns or
calls the opener with some OS flags and continues with the error the call returned. The same
tree is run sequentially against any opener (`Calls.run`) and interleaved with other parties
in the namespace model (`GoIpc.System`).

* `Calls.Sat P Q h p`: along every path of `p` started after the calls `h`, each call satisfies
  `P` and each result satisfies `Q`, both read against the calls made so far.
* `Calls.Sat.run`: a run against any opener ends with a result satisfying `Q` after calls each
  of which satisfied `P` (`Calls.Made`).
-/

namespace GoIpc

/-- One call of the opener: the OS flags passed and the error returned. -/
structure Call where
  flags : BitVec 64
  err : Option Error
  deriving DecidableEq, Repr

/-- A computation that calls an opener some number of times and then returns. -/
inductive Calls (α : Type) where
  | ret (a : α)
  | call (flags : BitVec 64) (next : Option Error → Calls α)

namespace Calls

variable {α : Type}

/-- Run against an opener that answers a call from the calls before it and the call's flags.
Returns the result and all calls made, oldest first. -/
def run (opener : List Call → BitVec 64 → Option Error) : List Call → Calls α → α × List Call
  | h, .ret a => (a, h)
  | h, .call f next => run opener (h ++ [⟨f, opener h f⟩]) (next (opener h f))

/-- Every call of `p` satisfies `P` and every result satisfies `Q`, each read against the
calls made before it, `h` being the calls made before `p` starts. -/
def Sat (P : List Call → BitVec 64 → Prop) (Q : List Call → α → Prop) :
    List Call → Calls α → Prop
  | h, .ret a => Q h a
  | h, .call f next => P h f ∧ ∀ e, Sat P Q (h ++ [⟨f, e⟩]) (next e)

end Calls

/-- The calls `h` were each made where `P` allowed them. -/
inductive Made (P : List Call → BitVec 64 → Prop) : List Call → Prop
  | nil : Made P []
  | snoc {h : List Call} {c : Call} : Made P h → P h c.flags → Made P (h ++ [c])

/-- Each call of `h` was allowed by `P` after some calls. -/
theorem Made.mem {P : List Call → BitVec 64 → Prop} {h : List Call} (hm : Made P h) {c : Call}
    (hc : c ∈ h) : ∃ h', P h' c.flags := by
  induction hm with
  | nil => cases hc
  | snoc _ hp ih =>
    rcases List.mem_append.1 hc with hc | hc
    · exact ih hc
    · rw [List.mem_singleton.1 hc]
      exact ⟨_, hp⟩

namespace Calls

variable {α : Type} {P P' : List Call → BitVec 64 → Prop} {Q Q' : List Call → α → Prop}

@[simp] theorem sat_ret {h : List Call} {a : α} : Sat P Q h (.ret a) ↔ Q h a := Iff.rfl

@[simp] theorem sat_call {h : List Call} {f : BitVec 64} {next : Option Error → Calls α} :
    Sat P Q h (.call f next) ↔ P h f ∧ ∀ e, Sat P Q (h ++ [⟨f, e⟩]) (next e) := Iff.rfl

theorem Sat.mono (hP : ∀ h f, P h f → P' h f) (hQ : ∀ h a, Q h a → Q' h a) :
    ∀ {h : List Call} {p : Calls α}, Sat P Q h p → Sat P' Q' h p
  | h, .ret a, hs => hQ h a hs
  | _, .call f _, ⟨hf, hn⟩ => ⟨hP _ f hf, fun e => Sat.mono hP hQ (hn e)⟩

/-- A sequential run against any opener ends in a result that `Q` allows, after calls that
`P` allowed. -/
theorem Sat.run (opener : List Call → BitVec 64 → Option Error) {h : List Call} {p : Calls α}
    (hs : Sat P Q h p) (hm : Made P h) :
    Q (p.run opener h).2 (p.run opener h).1 ∧ Made P (p.run opener h).2 := by
  induction p generalizing h with
  | ret a => exact ⟨hs, hm⟩
  | call f next ih => exact ih _ (hs.2 _) (.snoc hm hs.1)

end Calls

end GoIpc
