namespace ApiTypes.Word

/-- One more than the largest number of 64 bits with a sign. -/
def signed64 : Nat := Nat.pow 2 63

def unsigned64 : Nat := Nat.pow 2 64

def signed128 : Nat := Nat.pow 2 127

def unsigned128 : Nat := Nat.pow 2 128

/-- Whether a number fits in 64 bits, with a sign if it is negative. -/
def holds64 (n : Int) : Bool :=
  -(signed64 : Int) ≤ n && n < (unsigned64 : Int)

def holds128 (n : Int) : Bool :=
  -(signed128 : Int) ≤ n && n < (unsigned128 : Int)

def holdsSigned64 (n : Int) : Bool :=
  -(signed64 : Int) ≤ n && n < (signed64 : Int)

end ApiTypes.Word
