import Gpio.Topology

/-!
# Wake sources

The power-management controller numbers its wake sources; the table says
which line feeds each. Indices without a line are not routed.
-/

set_option autoImplicit false

namespace Gpio.Wake

def wire (port : PortLetter) (pin : Nat) : Option UInt32 := some (lineOf port.index pin)

def routed : List (Option UInt32) := [
  wire .a 6, wire .a 2, wire .a 5, wire .d 3, wire .e 3, wire .g 3, none, wire .b 3,
  wire .b 5, wire .c 0, wire .s 2, wire .h 2, wire .j 5, wire .j 6, wire .j 7, wire .k 0,
  wire .q 1, wire .f 4, wire .m 5, wire .p 0, wire .p 2, wire .p 1, wire .o 3, wire .r 5,
  none, wire .s 3, wire .s 4, wire .s 1, wire .f 2, wire .ff 0, wire .ff 4, wire .c 6,
  wire .w 2, wire .w 5, wire .w 1, wire .v 0, wire .v 1, wire .v 2, wire .v 3, wire .v 4,
  wire .v 5, wire .ee 0, wire .z 1, wire .z 3, wire .aa 0, wire .aa 1, wire .aa 2, wire .aa 3,
  wire .aa 4, wire .aa 5, wire .aa 6, wire .aa 7, wire .x 3, wire .x 7, wire .y 0, wire .y 1,
  wire .y 2, wire .y 5, wire .y 6, wire .l 1, wire .l 3, wire .l 4, wire .l 5, wire .i 4,
  wire .i 6, wire .z 0, wire .z 2, wire .ff 1, wire .ff 2, wire .ff 3, wire .h 3, wire .p 5]

def sources : List (Option UInt32) :=
  routed ++ List.replicate (Layout.wakeCount - routed.length) none

def indexOf? (line : UInt32) : Option Nat := sources.findIdx? (· == some line)

theorem length_sources : sources.length = Layout.wakeCount := by
  simp [sources, routed, Layout.wakeCount]

end Gpio.Wake
