import Latchkey.Program.Basic

/-!
# Running programs

A program is run by whatever answers its effects, with a state of type `ω`, and the operations of
its extension, with a state of type `σ`.
-/

namespace Latchkey.Program

variable {X : Extension} {ω σ α : Type}

/-- Runs a program. -/
def run (perform : ω → (e : Effect) → ω × e.Reply)
    (handle : ω → σ → (op : X.Op) → ω × σ × X.Reply op) (w : ω) (s : σ) :
    Program X α → ω × σ × α
  | .done a => (w, s, a)
  | .effect e next =>
    let r := perform w e
    run perform handle r.1 s (next r.2)
  | .extended op next =>
    let r := handle w s op
    run perform handle r.1 r.2.1 (next r.2.2)

end Latchkey.Program
