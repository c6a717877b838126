/-! # Powers

Powers of natural numbers and integers are those of the core library, also where another
way to raise numbers to a power is known. So a power means the same in every module.
-/

namespace BinaryPoint

attribute [instance (high)] instPowNat

end BinaryPoint
