/-! Choices in how instructions are written. -/

namespace X86
namespace Text

structure Options where
  /-- Put the address in front. -/
  address : Bool := false
  /-- Put the bytes in front, if the instruction kept them. -/
  binary : Bool := false
  /-- Write mnemonics in capitals. -/
  uppercase : Bool := false
  /-- Names for branch targets and bare addresses. -/
  resolver : Option (UInt64 → Option String) := none

namespace Options

/-- The name of an address, if there is one. -/
def resolve (o : Options) (address : UInt64) : Option String :=
  o.resolver.bind (· address)

/-- Letters a to z in the case chosen for mnemonics. -/
def mnemonicCase (o : Options) (text : String) : String :=
  text.map fun c => if o.uppercase then c.toUpper else c.toLower

/-- The options as one line. -/
def describe (o : Options) : String :=
  "TranslatorOptions \x7b " ++
    s!"include_address: {o.address}, include_binary: {o.binary}, " ++
    s!"uppercase_mnemonic: {o.uppercase}, symbol_resolver: {o.resolver.isSome}" ++ " \x7d"

end Options
end Text
end X86
