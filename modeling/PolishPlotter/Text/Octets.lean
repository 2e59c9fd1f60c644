set_option autoImplicit false

namespace PolishPlotter

def octets (bytes : List UInt8) : List Char := bytes.map fun b => .ofNat b.toNat

def octetsOf (c : Char) : List Char := octets (String.utf8EncodeChar c)

def isUtf8 (cs : List Char) : Bool :=
  ByteArray.validateUTF8 ⟨(cs.map fun c => UInt8.ofNat c.toNat).toArray⟩

def octetsOfText (text : String) : List Char := text.toList.flatMap octetsOf

end PolishPlotter
