import BlockScript.Scene.Basic

/-!
Changes of a scene. Whatever changes in a scene does so by one of these, and each is announced on one
channel.
-/
namespace BlockScript

/-- What can be written to a scene. -/
inductive Change where
  | variable (a : Address) (v : Value)
  | items (a : Address) (vs : List Value)
  | pose (figure : Nat) (p : Pose)
  | audio (figure : Nat) (a : AudioSettings)
  | pointer (x y : Number)

namespace Change

def apply : Change → Scene → Scene
  | .variable a v, s => s.setVariable a v
  | .items a vs, s => s.setItems a vs
  | .pose figure p, s => s.setPose figure p
  | .audio figure a, s => s.setAudio figure a
  | .pointer x y, s => s.setPointer x y

def channel : Change → Channel
  | .variable a _ => .variable a
  | .items a _ => .list a
  | .pose figure _ => .moved figure
  | .audio figure _ => .audio figure
  | .pointer .. => .pointer

end Change

def Figure.channels (f : Figure) (n : Nat) : List Channel :=
  f.vars.map (fun x => .variable ⟨n, x.id⟩) ++ f.lists.map (fun x => .list ⟨n, x.id⟩) ++
    [.moved n, .audio n]

def Scene.channels (s : Scene) : List Channel :=
  .pointer :: (s.figures.mapIdx fun n f => f.channels n).flatten

end BlockScript
