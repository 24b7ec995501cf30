/-! # Limits of storage

A list of items is stored in one piece. A piece of `2 ^ 63` bytes or more cannot be asked for, so sizes
that are given in advance have to be checked before they are believed. -/

namespace Mapf.Storage

/-- The greatest number of bytes in one piece of storage. -/
def maxBytes : Nat := 9223372036854775807

/-- Whether `count` items of `itemBytes` bytes each can be stored in one piece. -/
def fits (itemBytes count : Nat) : Bool := itemBytes * count ≤ maxBytes

end Mapf.Storage
