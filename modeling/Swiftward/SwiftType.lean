import Swiftward.Text.Reading

/-!
# Types

The Swift type for the spelling of an Objective-C type. A few names have a counterpart of their
own and all others are kept. A trailing `*` makes the type optional, except that `id<P>` is always
the protocol `P` and that `NSError **` is an error pointer.
-/

namespace Swiftward

/-- The type names with a counterpart of their own. -/
def typeNames : List (String × String) := [
  ("void", "Void"), ("int", "Int"), ("unsigned", "UInt"), ("NSInteger", "Int"),
  ("NSUInteger", "UInt"), ("SInt8", "Int8"), ("int8_t", "Int8"), ("uint8_t", "UInt8"),
  ("SInt16", "Int16"), ("int16_t", "Int16"), ("uint16_t", "UInt16"), ("SInt32", "Int32"),
  ("int32_t", "Int32"), ("uint32_t", "UInt32"), ("SInt64", "Int64"), ("int64_t", "Int64"),
  ("uint64_t", "UInt64"), ("BOOL", "Bool"), ("bool", "Bool"), ("char", "UInt8"),
  ("float", "Float"), ("double", "Double"), ("NSString", "String")]

/-- The Swift name of a type. -/
def typeName (name : Text) : Text :=
  match typeNames.find? fun entry => entry.1.toList = name with
  | some (_, swift) => swift.toList
  | none => name

/-- The protocol that a type `id<P>` names. -/
def protocolName? (base : Text) : Option Text := do
  let s ← after? "id" base
  let s ← after? "<" (trimStart s)
  let (name, s) ← nextWord? (trimStart s)
  let s ← after? ">" (trimStart s)
  if s = [] then some name else none

/-- The Swift type for the spelling of a type. -/
def swiftType (spelling : Text) : Text :=
  let spelling := trim spelling
  if spelling.filter (!isSpace ·) = "NSError**".toList then "NSErrorPointer".toList
  else
    match before? '*' spelling with
    | none => (protocolName? spelling).getD (typeName spelling)
    | some pointee =>
      let base := trimEnd pointee
      (protocolName? base).getD (typeName base ++ ['?'])

end Swiftward
