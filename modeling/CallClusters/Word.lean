/-! Powers of two and of ten, and the bounds of machine words. -/

namespace CallClusters

def twoTo (n : Nat) : Nat := Nat.pow 2 n

def tenTo (n : Nat) : Nat := Nat.pow 10 n

/-- The first number that does not fit 32 bits. -/
def wordBound32 : Nat := 4294967296

/-- The first number that does not fit 64 bits. -/
def wordBound64 : Nat := 18446744073709551616

end CallClusters
