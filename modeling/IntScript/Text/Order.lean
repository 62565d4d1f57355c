set_option autoImplicit false

namespace IntScript.Text

def charsLe : List Char → List Char → Bool
  | [], _ => true
  | _ :: _, [] => false
  | a :: as, b :: bs => if a = b then charsLe as bs else decide (a.toNat < b.toNat)

def nameLe (a b : String) : Bool := charsLe a.toList b.toList

def sortedNames (names : List String) : List String := names.eraseDups.mergeSort nameLe

end IntScript.Text
