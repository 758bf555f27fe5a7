/-! Layout of printed text: indented lines and lists in parentheses. -/

namespace RegisterIR.Text

def indentation (depth : Nat) : String := "".pushn ' ' (4 * depth)

def line (depth : Nat) (content : String) : String := indentation depth ++ content ++ "\n"

def listed (texts : List String) : String := ", ".intercalate texts

def parenthesized (texts : List String) : String := "(" ++ listed texts ++ ")"

end RegisterIR.Text
