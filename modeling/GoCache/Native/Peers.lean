import GoCache.Native.Connection

/-!
# Nodes as peers

The network that clients and other nodes see when the peers are nodes themselves:
what is written on a connection to a node goes through `handleConnection`, and the
node's reply is the answer.
-/

namespace GoCache.Native

/-- A node that can be reached at an address, and the connection that was last opened
    to it, unless it is closed: the state the node keeps of it, and the bytes it has
    not read yet. -/
structure Host where
  node : ServerNode Unit
  conn : Option (ConnectionState × Bytes)

/-- The nodes by their addresses, the addresses that were dialled, and the number of
    commands handled so far. -/
structure Peers where
  hosts : GoString → Option Host
  dialled : List GoString
  handled : Nat

/-- The network of a node that reaches nobody. -/
def unreachable : Network Unit where
  dial _ _ := .error (ascii "connect: network is unreachable")
  write _ _ _ := .error (ascii "write: broken pipe")

section Peers

variable (exec : ExecHandler) (hash : Bytes → UInt32) (conn : ConnID) (choices : Nat → Choices)

/-- The host behind a turn of `handleConnection`, and what it answers. A panic takes
    the whole process down. -/
def Host.answer (host : Host) (choices : Choices) (cmd : Bytes) :
    Except Bytes (Bytes × Option Host) :=
  match host.conn with
  | none => .error (ascii "write: broken pipe")
  | some (st, unread) =>
    match host.node.turn exec unreachable hash conn st choices (unread ++ cmd) with
    | .error _ => .ok ([], none)
    | .ok (none, node) => .ok ([], some ⟨node, none⟩)
    | .ok (some (reply, st, rest), node) => .ok (reply, some ⟨node, some (st, rest)⟩)

/-- The network of the peers. A connection is opened in place of an older one to the
    same address, which the caller has closed. -/
def peers : Network Peers where
  dial w addr :=
    match w.hosts addr with
    | none => .error (ascii "connect: connection refused")
    | some host => .ok { w with
        hosts := Function.update w.hosts addr (some { host with conn := some (.new, []) })
        dialled := w.dialled ++ [addr] }
  write w addr cmd :=
    match w.hosts addr with
    | none => .error (ascii "write: broken pipe")
    | some host => do
      let (reply, host) ← host.answer exec hash conn (choices w.handled) cmd
      return (reply, { w with
        hosts := Function.update w.hosts addr host, handled := w.handled + 1 })

end Peers

end GoCache.Native
