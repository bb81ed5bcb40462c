import CommandGrammar.Grammar.Basic

/-! Running a grammar on a window. The outcome has a log, which is there also when nothing
matches. -/
namespace CommandGrammar

/-- What a run tells of labelled grammars and of placeholders. Positions count tokens. -/
inductive Event where
  | matched (label : String) (start stop : Nat)
  | failed (label : String) (position : Nat)
  | supplied (label : String) (position : Nat)
  deriving DecidableEq, Repr

/-- A value and the number of tokens consumed, if there was a match, and the log. -/
structure Outcome (α : Type) where
  result : Option (α × Nat)
  log : List Event

namespace Outcome
variable {α β : Type}

def failure : Outcome α := ⟨none, []⟩

def success (value : α) (used : Nat) : Outcome α := ⟨some (value, used), []⟩

def map (f : α → β) (o : Outcome α) : Outcome β := ⟨o.result.map fun (a, n) => (f a, n), o.log⟩

/-- Goes on behind what was consumed. -/
def andThen (o : Outcome α) (next : α → Nat → Outcome β) : Outcome β :=
  match o.result with
  | none => ⟨none, o.log⟩
  | some (a, n) =>
    let o' := next a n
    ⟨o'.result.map fun (b, m) => (b, n + m), o.log ++ o'.log⟩

/-- Tries something else unless there was a match. -/
def orElse (o : Outcome α) (other : Unit → Outcome α) : Outcome α :=
  match o.result with
  | some r => ⟨some r, o.log⟩
  | none =>
    let o' := other ()
    ⟨o'.result, o.log ++ o'.log⟩

/-- Adds what is to be said of a labelled grammar that started at `position`. -/
def report (label? : Option String) (position : Nat) (o : Outcome α) : Outcome α :=
  match label?, o.result with
  | none, _ => o
  | some label, some (_, n) => { o with log := o.log ++ [.matched label position (position + n)] }
  | some label, none => { o with log := o.log ++ [.failed label position] }

/-- Repeats a step as long as it matches and consumes something. -/
def repeated (step : Window → Outcome α) (w : Window) : Outcome (List α) :=
  let o := step w
  match o.result with
  | none => ⟨some ([], 0), o.log⟩
  | some (a, n) =>
    if 0 < n ∧ n ≤ w.tokens.length then
      let o' := repeated step (w.advance n)
      ⟨o'.result.map fun (as, m) => (a :: as, n + m), o.log ++ o'.log⟩
    else ⟨some ([], 0), o.log⟩
termination_by w.tokens.length
decreasing_by simp only [Window.advance_tokens, List.length_drop]; omega

end Outcome

namespace Grammar

def run : {α : Type} → Grammar α → Window → Outcome α
  | _, .satisfy accepts, w =>
    match w.tokens with
    | [] => .failure
    | t :: _ => if accepts t then .success (.ofToken t) 1 else .failure
  | _, .fail, _ => .failure
  | _, .pure a, _ => .success a 0
  | _, .supply label a, w => ⟨some (a, 0), [.supplied label w.start]⟩
  | _, .map f g, w => (g.run w).map f
  | _, .seq g h, w => (g.run w).andThen fun a n => (h.run (w.advance n)).map (a, ·)
  | _, .orElse g h, w => (g.run w).orElse fun _ => h.run w
  | _, .many g, w => .repeated (fun v => g.run v) w
  | _, .lookahead g, w =>
    let o := g.run w
    ⟨o.result.map fun _ => ((), 0), o.log⟩
  | _, .capture f g, w =>
    let o := g.run w
    ⟨o.result.map fun (_, n) => (f ⟨w.start, w.start + n, w.tokens.take n, w.offset⟩, n), o.log⟩
  | _, .annotate note g, w => (g.run w).report note.label? w.start

end Grammar

namespace Source
variable {α : Type}

/-- Value and end position of a grammar that matches at a position. -/
def parse (s : Source) (g : Grammar α) (position : Nat) : Option (α × Nat) :=
  (g.run (s.window position)).result.map fun (a, n) => (a, position + n)

end Source
end CommandGrammar
