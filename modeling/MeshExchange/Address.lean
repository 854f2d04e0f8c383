import MeshExchange.Text.Hexadecimal

/-!
# Addresses of the mesh

Two bytes name the target of a request: the coordinator, one of its nodes, the device attached to it,
or all nodes at once. Every other value is reserved.

**Results.**
* `Address.isCoordinatorLocal`, `Address.isNode`, `Address.isBroadcast`, `Address.isReserved`: the
  four classes, of which each address is in exactly one;
* `Address.text`: the address in hexadecimal, at least two digits.
-/

namespace MeshExchange

/-- A network address. -/
structure Address where
  value : UInt16
  deriving DecidableEq, Repr

namespace Address

section Classes

/-- The coordinator of the mesh. -/
def coordinator : Address := ⟨0x00⟩

/-- The lowest address of a node. -/
def nodeMin : Address := ⟨0x01⟩

/-- The highest address of a node. -/
def nodeMax : Address := ⟨0xEF⟩

/-- The device attached to the coordinator. -/
def localDevice : Address := ⟨0xFC⟩

/-- All nodes. -/
def broadcast : Address := ⟨0xFF⟩

/-- The address of the node with a given number. -/
def node (id : UInt8) : Address := ⟨id.toUInt16⟩

/-- A request to all nodes, which none of them answers. -/
def isBroadcast (a : Address) : Bool := a == broadcast

/-- A request to the coordinator or its device, which never travels the mesh. -/
def isCoordinatorLocal (a : Address) : Bool := a == coordinator || a == localDevice

/-- An address of a bonded node. -/
def isNode (a : Address) : Bool := nodeMin.value ≤ a.value && a.value ≤ nodeMax.value

/-- No target of a request. -/
def isReserved (a : Address) : Bool := !(a.isCoordinatorLocal || a.isNode || a.isBroadcast)

end Classes

section Text

/-- The address in hexadecimal, with at least two digits. -/
def text (a : Address) : String :=
  let n := a.value.toNat
  "0x" ++ String.ofList (if n < 16 then '0' :: Hexadecimal.upper n else Hexadecimal.upper n)

end Text

end Address
end MeshExchange
