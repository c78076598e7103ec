import GoCache.Native.Protocol

/-!
# Redirects

The redirect responses of `pkg/protocol/encoder.go`: what the client takes for a
redirect, and the address it reads in it.
-/

namespace GoCache.Native

/-- `strings.TrimPrefix`. -/
def trimPrefix (s pre : Bytes) : Bytes := if pre.isPrefixOf s then s.drop pre.length else s

/-- `strings.TrimSuffix`. -/
def trimSuffix (s suf : Bytes) : Bytes :=
  if suf.isSuffixOf s then s.take (s.length - suf.length) else s

/-- A `RedirectResponse`. Its address is one string, so it fits one allocation. -/
structure RedirectResponse where
  leaderHost : Bytes
  leaderPort : Bytes
  addr_le : leaderHost.length + (1 + leaderPort.length) ≤ maxAlloc

/-- `RedirectResponse.Address`. -/
def RedirectResponse.address (r : RedirectResponse) : GoString where
  bytes := r.leaderHost ++ byte ':' :: r.leaderPort
  length_le := by
    have hle := r.addr_le
    rw [List.length_append, List.length_cons]
    omega

/-- `EncodeRedirect`. -/
def encodeRedirect (host : GoString) (port : Int64) : Bytes :=
  ascii "-MOVED " ++ host.bytes ++ byte ':' :: itoa port ++ crlf

/-- `IsRedirect`. -/
def isRedirect (response : GoString) : Bool :=
  (ascii "MOVED").isPrefixOf response.bytes || (ascii "-MOVED").isPrefixOf response.bytes

/-- What `ParseRedirect` takes for the address. -/
def redirectText (response : GoString) : Bytes :=
  trimSuffix (trimPrefix (trimPrefix response.bytes (ascii "-MOVED ")) (ascii "MOVED ")) crlf

theorem length_redirectText_le (response : GoString) :
    (redirectText response).length ≤ maxAlloc := by
  have hpre : ∀ s pre : Bytes, (trimPrefix s pre).length ≤ s.length := by
    intro s pre
    unfold trimPrefix
    split
    · rw [List.length_drop]
      omega
    · exact Nat.le_refl _
  have hsuf : ∀ s suf : Bytes, (trimSuffix s suf).length ≤ s.length := by
    intro s suf
    unfold trimSuffix
    split
    · rw [List.length_take]
      omega
    · exact Nat.le_refl _
  exact (hsuf _ _).trans ((hpre _ _).trans ((hpre _ _).trans response.length_le))

/-- `ParseRedirect`. -/
def parseRedirect (response : GoString) : Except Bytes RedirectResponse :=
  if !isRedirect response then
    .error (ascii "not a redirect response: " ++ response.bytes)
  else
    match h : (redirectText response).splitOn (byte ':') with
    | [host, port] =>
      if host = [] then .error (ascii "invalid redirect: empty host")
      else if port = [] then .error (ascii "invalid redirect: empty port")
      else
        match atoi port with
        | none => .error (ascii "invalid redirect: port must be a number got " ++ port)
        | some _ => .ok {
            leaderHost := host
            leaderPort := port
            addr_le := by
              have hlen := length_redirectText_le response
              have hjoin : [byte ':'].intercalate ((redirectText response).splitOn (byte ':')) =
                redirectText response := List.intercalate_splitOn _
              rw [h] at hjoin
              rw [← hjoin] at hlen
              simpa [List.intercalate, Nat.add_comm, Nat.add_left_comm] using hlen }
    | _ => .error (ascii "invalid redirect format, expected 'host:port' but got: " ++
        redirectText response)

end GoCache.Native
