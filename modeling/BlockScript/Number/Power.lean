/-!
Powers of two and of ten.
-/
namespace BlockScript

/-- Two to a power; whole numbers of so many bits are below it. -/
def twoPow (k : Nat) : Nat := Nat.pow 2 k

def tenPow (k : Nat) : Nat := Nat.pow 10 k

end BlockScript
