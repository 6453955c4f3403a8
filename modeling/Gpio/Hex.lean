/-!
# Hexadecimal text
-/

set_option autoImplicit false

namespace Gpio

def hex (n : Nat) : String := "0x" ++ String.ofList (Nat.toDigits 16 n)

end Gpio
