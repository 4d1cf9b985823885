import PerCoreShard.Net.Http.Types

/-! Library-independent networking types. -/
namespace PerCoreShard

/-- A socket object; the event loop never gives out the same one twice. -/
abbrev SocketId := ℕ

/-- `net::Error`. -/
structure NetError where
  code : ℤ := 0
  message : Bytes := []
  deriving DecidableEq, Repr

namespace NetError

def ok (e : NetError) : Bool := e.code == 0

/-- `Error::none()`. -/
def none : NetError := {}

@[simp] theorem ok_none : none.ok = true := rfl

end NetError

/-- `net::Endpoint`: an address after its name was resolved. -/
structure NetEndpoint where
  host : Bytes := []
  port : ℕ := 0
  deriving DecidableEq, Repr

end PerCoreShard
