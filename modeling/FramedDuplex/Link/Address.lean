import FramedDuplex.Link.Error
import FramedDuplex.Text.Digits
/-!
# Addresses of peers

An address is a host, a colon and the number of a service; the colon is the last
one. An address without a colon and one whose service is no number of 16 bits
are refused before anything is looked up.
-/

namespace FramedDuplex

/-- A host, which may have colons in it, and the number of a service. -/
structure Address where
  host : String
  service : UInt16
deriving DecidableEq, Repr

/-- Reads an address. -/
def Address.read (text : String) : Except ClientError Address :=
  let reversed := text.toList.reverse
  match reversed.dropWhile (· ≠ ':') with
  | [] => .error (.io "invalid socket address")
  | _ :: host =>
    match Digits.below? UInt16.size (reversed.takeWhile (· ≠ ':')).reverse with
    | none => .error (.io "invalid port value")
    | some service => .ok ⟨String.ofList host.reverse, UInt16.ofNat service⟩

end FramedDuplex
