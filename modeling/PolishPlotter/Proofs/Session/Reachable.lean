import PolishPlotter.Proofs.Session.Line

set_option autoImplicit false

namespace PolishPlotter.Session

inductive Reachable (settings : Settings) : Session → Prop
  | new : Reachable settings (.new settings)
  | enter {s : Session} (line : String) (earlier : Reachable settings s) :
    Reachable settings (s.enter line).session
  | interrupt {s : Session} (earlier : Reachable settings s) : Reachable settings s.interrupt

-- Only commands that a line can hold count.
def Kept (P : Session → Prop) : Prop :=
  ∀ ⦃s : Session⦄ ⦃word : String⦄ ⦃rest : List String⦄ ⦃command : Command⦄ ⦃reply : Reply⦄,
    P s → Command.read s.vars word rest = .ok command → s.apply command = .ok reply →
      P reply.session

variable {P : Session → Prop} {settings : Settings} {s : Session}

theorem Kept.enterWords (kept : Kept P) (holds : P s) (taken : Nat) (words : List String) :
    P (s.enterWords taken words).session :=
  enterWords_keeps (Q := fun _ => True) (fun _ _ _ _ _ given _ reads applied => kept given reads applied)
    holds fun _ _ => trivial

theorem Reachable.invariant (reachable : Reachable settings s) (start : P (.new settings))
    (kept : Kept P) (interrupted : ∀ t, P t → P t.interrupt) : P s := by
  induction reachable with
  | new => exact start
  | enter line earlier ih =>
    rw [enter_eq]
    exact kept.enterWords ih 0 (words line)
  | interrupt earlier ih => exact interrupted _ ih

end PolishPlotter.Session
