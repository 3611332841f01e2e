import Proxinator.Tunnel

/-!
# Arguments of the servers

The server factories take `(options)`, `(server)` or `(server, options)`, and `bind` takes
`(socket, options)` or `(socket, up, down, options)`. `Arguments.server` and `Arguments.bind` make
one form of these; a call in one style is a call in the other (`bind_eq_positional`).
-/

namespace Proxinator

open Lib

namespace Arguments

/-- `server`: an existing server to wrap, if there is one, and the options. -/
def server {σ ο : Type*} (empty : ο) (serverOrOptions : Option (σ ⊕ ο)) (options : Option ο) :
    Option σ × ο :=
  match serverOrOptions with
  | some (.inl server) => (some server, options.getD empty)
  | some (.inr given) => (none, given)
  | none => (none, options.getD empty)

/-- What `bind` takes and returns. -/
structure BindOptions where
  up : Option (Transform Bytes)
  down : Option (Transform Bytes)
  idleTimeout : Option ℕ

/-- `bind`, where `defaults` is the `idleTimeout` of the server. -/
def bind (upOrOptions : Option (Transform Bytes ⊕ BindOptions)) (down : Option (Transform Bytes))
    (options : Option BindOptions) (defaults : Option ℕ) : BindOptions :=
  let (given, up, downStream) : Option BindOptions × Option (Transform Bytes) ×
      Option (Transform Bytes) :=
    match upOrOptions with
    | some (.inr given) => (some given, given.up, given.down)
    | some (.inl up) => (options, some up, down)
    | none => (options, none, down)
  { up := up
    down := downStream
    idleTimeout := (given.bind BindOptions.idleTimeout).or defaults }

/-- **Both styles of a call mean the same.** -/
theorem bind_eq_positional (given : BindOptions) (down : Option (Transform Bytes))
    (options : Option BindOptions) (defaults : Option ℕ) :
    bind (some (.inr given)) down options defaults =
      bind (given.up.map .inl) given.down (some given) defaults := by
  obtain ⟨up, downStream, idleTimeout⟩ := given
  cases up with
  | none => rfl
  | some up => rfl

/-- The options of the tunnel that a server makes. -/
def BindOptions.tunnel (b : BindOptions) : Tunnel.Options :=
  ⟨b.up, b.down, b.idleTimeout.getD 0, true, true⟩

end Arguments

end Proxinator
