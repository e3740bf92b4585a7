/-!
# 32-bit arithmetic

Integers of the language are signed 32-bit words.  Sum, difference, product and negation wrap; this
module adds the division.
-/

namespace LetPrint

/-- Division of words: the quotient rounded toward zero, wrapped to 32 bits, and 0 for the divisor
0.  A divisor of -1 is a negation, so the least word divided by -1 is itself. -/
def divide (a b : Int32) : Int32 :=
  if b = 0 then 0 else if b = -1 then -a else a / b

end LetPrint
