import GoCache.Native.Handler
import GoCache.Native.Redirect
import GoCache.Spec.ProtocolCorrect

/-!
# What the client makes of a redirect

A node that is not responsible for a key answers `-MOVED <id> <host:port>`. The
client expects `MOVED <host:port>`: it takes everything behind the first word for
the address. So it misunderstands the answer of every node, unless the ID breaks
the line in two and the first half happens to be the address.

## Key results

- `parse_error_iff`: how an error reply is read
- `address_of_parseRedirect`: the address is what stands behind the first word
- `redirect_understood_iff`: when the answer is understood
- `encodeRedirect_understood`: the answer that the client expects
-/

namespace GoCache.Spec

open GoCache.Native Reading

/-! ## Reading the reply -/

/-- An error reply is read up to its first line feed, behind a carriage return. -/
theorem parse_error_iff {text rest : Bytes} {response : GoString} :
    parse (byte '-' :: text) = .ok (.str response) rest ↔
      byte '\n' ∉ response.bytes ∧ text = response.bytes ++ crlf ++ rest := by
  have hparse : parse (byte '-' :: text) = (Value.str <$> parseError grantAll) text := by
    rw [parse_cons]
    rfl
  rw [hparse, ← readLine_eq_ok]
  show ((readLine >>= toGoString) >>= fun s => pure (Value.str s)) text = _ ↔ _
  rw [bind_apply, bind_apply]
  constructor
  · intro h
    cases hline : readLine text with
    | ok line left =>
      rw [hline] at h
      simp only [toGoString] at h
      split at h
      · next s hs =>
        split at hs
        · cases hs
          cases h
          rfl
        · cases hs
      · cases h
      · cases h
    | err e left =>
      rw [hline] at h
      cases h
    | abort cause =>
      rw [hline] at h
      cases h
  · intro h
    rw [h]
    simp only [toGoString, dif_pos response.length_le]
    rfl

/-! ## Reading the address -/

/-- What has no line feed does not end in a line terminator. -/
private theorem trimSuffix_crlf {s : Bytes} (h : byte '\n' ∉ s) : trimSuffix s crlf = s := by
  unfold trimSuffix
  rw [if_neg]
  intro hsuffix
  exact h ((List.isSuffixOf_iff_suffix.mp hsuffix).subset (by decide))

/-- Of a redirect, the text behind the first word is left. -/
theorem redirectText_eq {response : GoString} {text : Bytes}
    (h : response.bytes = ascii "MOVED " ++ text) (htext : byte '\n' ∉ text) :
    redirectText response = text := by
  have hfirst : trimPrefix response.bytes (ascii "-MOVED ") = response.bytes := by
    unfold trimPrefix
    rw [if_neg]
    rw [h]
    exact Bool.false_ne_true
  have hsecond : trimPrefix response.bytes (ascii "MOVED ") = text := by
    unfold trimPrefix
    rw [if_pos, h]
    · exact List.drop_left
    · rw [h]
      exact List.isPrefixOf_iff_prefix.mpr (List.prefix_append _ _)
  unfold redirectText
  rw [hfirst, hsecond, trimSuffix_crlf htext]

/-- The address of a redirect is all of that text. -/
theorem address_of_parseRedirect {response : GoString} {r : RedirectResponse}
    (h : parseRedirect response = .ok r) :
    isRedirect response = true ∧ r.address.bytes = redirectText response := by
  unfold parseRedirect at h
  split at h
  · exact nomatch h
  · next hredirect =>
    refine ⟨by simpa using hredirect, ?_⟩
    split at h
    · next host port hsplit =>
      have hjoin : [byte ':'].intercalate ((redirectText response).splitOn (byte ':')) =
        redirectText response := List.intercalate_splitOn _
      rw [hsplit] at hjoin
      have hbytes : host ++ byte ':' :: port = redirectText response := by
        simpa [List.intercalate] using hjoin
      split at h
      · exact nomatch h
      split at h
      · exact nomatch h
      split at h
      · exact nomatch h
      · cases h
        exact hbytes
    · exact nomatch h

section Address

variable {host port : Bytes} {n : Int64}

/-- A host and a port are read back as they are. -/
theorem parseRedirect_of_addr {response : GoString} (hredirect : isRedirect response = true)
    (htext : redirectText response = host ++ byte ':' :: port) (hne : host ≠ [])
    (hhost : byte ':' ∉ host) (hport : atoi port = some n) :
    ∃ r, parseRedirect response = .ok r ∧ r.address.bytes = host ++ byte ':' :: port := by
  have hcolon : byte ':' ∉ port := by
    intro hmem
    exact absurd ((atoi_range hport).2 _ hmem).2 (by decide)
  have hsplit : (redirectText response).splitOn (byte ':') = [host, port] := by
    have hparts : ∀ part ∈ [host, port], byte ':' ∉ part := by simp [hhost, hcolon]
    rw [htext]
    have hback := List.splitOn_intercalate (byte ':') hparts (by simp)
    simpa [List.intercalate] using hback
  cases hr : parseRedirect response with
  | ok r =>
    refine ⟨r, rfl, ?_⟩
    rw [(address_of_parseRedirect hr).2, htext]
  | error e =>
    -- none of the checks fails
    unfold parseRedirect at hr
    rw [if_neg (by simp [hredirect])] at hr
    split at hr
    · next host' port' hsplit' =>
      rw [hsplit] at hsplit'
      cases hsplit'
      rw [if_neg hne, if_neg (atoi_range hport).1] at hr
      split at hr
      · next hnone =>
        rw [hport] at hnone
        exact nomatch hnone
      · exact nomatch hr
    · next hother => exact absurd hsplit (hother host port)

/-- Spaces and line feeds do not stand in a host and a port. -/
theorem notMem_addr {b : UInt8} (hb : b ∈ [byte ' ', byte '\n']) (hhost : b ∉ host)
    (hport : atoi port = some n) : b ∉ host ++ byte ':' :: port := by
  intro hmem
  rcases List.mem_append.mp hmem with hmem | hmem
  · exact hhost hmem
  · rcases List.mem_cons.mp hmem with rfl | hmem
    · exact absurd hb (by decide)
    · have hlow := ((atoi_range hport).2 b hmem).1
      rcases List.mem_cons.mp hb with rfl | hb
      · exact absurd hlow (by decide)
      · rw [List.mem_singleton.mp hb] at hlow
        exact absurd hlow (by decide)

end Address

/-! ## The two ends together -/

/-- The client reads the reply as a redirect to the address. -/
def Understood (reply : Bytes) (addr : GoString) : Prop :=
  ∃ response rest redirect, parse reply = .ok (.str response) rest ∧
    isRedirect response = true ∧ parseRedirect response = .ok redirect ∧ redirect.address = addr

/-- What stands between the first word of a redirect and its terminator. -/
private theorem exists_text {response : GoString} {text rest : Bytes}
    (hredirect : isRedirect response = true)
    (h : ascii "MOVED " ++ text = response.bytes ++ crlf ++ rest) :
    ∃ line, response.bytes = ascii "MOVED " ++ line ∧ text = line ++ crlf ++ rest := by
  -- the first byte is no dash, so the response begins with the word itself
  have hword : ascii "MOVED" <+: response.bytes := by
    rcases Bool.or_eq_true_iff.mp hredirect with hpre | hpre
    · exact List.isPrefixOf_iff_prefix.mp hpre
    · obtain ⟨t, ht⟩ := List.isPrefixOf_iff_prefix.mp hpre
      rw [← ht] at h
      have hhead : byte 'M' = byte '-' := (List.cons.inj h).1
      exact absurd hhead (by decide)
  obtain ⟨line, hline⟩ := hword
  rw [← hline] at h
  cases line with
  | nil =>
    -- a terminator right behind the word is not what stands there
    have htail := congrArg (List.drop 5) h
    exact nomatch htail
  | cons b line =>
    have htail := congrArg (List.drop 5) h
    obtain ⟨rfl, htext⟩ := List.cons.inj htail
    exact ⟨line, hline.symm, htext⟩

/-- A line with the address alone is understood, whatever follows it. -/
private theorem understood_line {addr : GoString} {host port : Bytes} {n : Int64}
    (haddr : addr.bytes = host ++ byte ':' :: port) (hne : host ≠ [])
    (hhost : ∀ b ∈ [byte ':', byte ' ', byte '\n'], b ∉ host) (hport : atoi port = some n)
    (hfit : (ascii "MOVED ").length + addr.length ≤ maxAlloc) (rest : Bytes) :
    Understood (byte '-' :: (ascii "MOVED " ++ addr.bytes ++ crlf ++ rest)) addr := by
  have hnewline : byte '\n' ∉ addr.bytes := by
    rw [haddr]
    exact notMem_addr (by decide) (hhost _ (by decide)) hport
  let response : GoString := ⟨ascii "MOVED " ++ addr.bytes, by
    rw [List.length_append]
    exact hfit⟩
  have hredirect : isRedirect response = true := rfl
  have htext : redirectText response = host ++ byte ':' :: port := by
    rw [redirectText_eq rfl hnewline, haddr]
  obtain ⟨redirect, hok, hbytes⟩ := parseRedirect_of_addr hredirect htext hne
    (hhost _ (by decide)) hport
  refine ⟨response, rest, redirect, parse_error_iff.mpr ⟨?_, rfl⟩, hredirect, hok,
    GoString.ext (hbytes.trans haddr.symm)⟩
  rw [List.mem_append, not_or]
  exact ⟨by decide, hnewline⟩

/-- When the reply for a node and an address is understood. -/
theorem understood_moved_iff {nodeID addr : GoString} {host port : Bytes} {n : Int64}
    (haddr : addr.bytes = host ++ byte ':' :: port) (hne : host ≠ [])
    (hhost : ∀ b ∈ [byte ':', byte ' ', byte '\n'], b ∉ host) (hport : atoi port = some n) :
    Understood (ascii "-MOVED " ++ nodeID.bytes ++ ascii " " ++ addr.bytes ++ crlf) addr ↔
      (ascii "MOVED ").length + addr.length ≤ maxAlloc ∧
        ∃ rest, nodeID.bytes = addr.bytes ++ crlf ++ rest := by
  have hspace : byte ' ' ∉ addr.bytes := by
    rw [haddr]
    exact notMem_addr (by decide) (hhost _ (by decide)) hport
  have hnewline : byte '\n' ∉ addr.bytes := by
    rw [haddr]
    exact notMem_addr (by decide) (hhost _ (by decide)) hport
  have hreply : ascii "-MOVED " ++ nodeID.bytes ++ ascii " " ++ addr.bytes ++ crlf =
      byte '-' :: (ascii "MOVED " ++ (nodeID.bytes ++ (ascii " " ++ (addr.bytes ++ crlf)))) := by
    simp [ascii, byte]
  rw [hreply]
  constructor
  · rintro ⟨response, rest, redirect, hparse, hredirect, hok, rfl⟩
    obtain ⟨hresponse, htext⟩ := parse_error_iff.mp hparse
    obtain ⟨line, hline, hsplit⟩ := exists_text hredirect htext
    have hfree : byte '\n' ∉ line := by
      rw [hline, List.mem_append, not_or] at hresponse
      exact hresponse.2
    have hbytes := (address_of_parseRedirect hok).2
    rw [redirectText_eq hline hfree] at hbytes
    rw [← hbytes] at hsplit
    refine ⟨?_, ?_⟩
    · have hle := response.length_le
      rw [hline, List.length_append, ← hbytes] at hle
      exact hle
    · rw [List.append_assoc] at hsplit
      obtain ⟨a, ha, hrest⟩ | ⟨a, ha, hrest⟩ := List.append_eq_append_iff.mp hsplit
      · -- the address would go on with the space behind the ID
        cases a with
        | nil => exact nomatch hrest
        | cons b a =>
          have hb : byte ' ' = b := (List.cons.inj hrest).1
          rw [ha, hb] at hspace
          exact absurd (List.mem_append_right _ List.mem_cons_self) hspace
      · -- the terminator stands in the ID
        match a with
        | [] => exact nomatch hrest
        | [b] => exact nomatch (List.cons.inj hrest).2
        | b :: c :: a =>
          have hb : byte '\r' = b := (List.cons.inj hrest).1
          have hc : byte '\n' = c := (List.cons.inj (List.cons.inj hrest).2).1
          refine ⟨a, ?_⟩
          rw [ha, ← hb, ← hc, List.append_assoc]
          rfl
  · rintro ⟨hfit, rest, hid⟩
    rw [hid]
    have hline := understood_line haddr hne hhost hport hfit
      (rest ++ (ascii " " ++ (addr.bytes ++ crlf)))
    simpa using hline

/-- The answer of a node that is not responsible for a key is understood exactly if
    the ID of the target begins with the target's address and a line terminator,
    and the line in front of that terminator fits one allocation. -/
theorem redirect_understood_iff (s : Server) (command : Value) (key nodeID addr : GoString)
    (host port : Bytes) (n : Int64) (hmode : s.clusterMode = true) (hkey : key ≠ GoString.empty)
    (hforward : s.forward key (isCommand command "SET" || isCommand command "DEL") =
      some (nodeID, addr))
    (haddr : addr.bytes = host ++ byte ':' :: port) (hne : host ≠ [])
    (hhost : ∀ b ∈ [byte ':', byte ' ', byte '\n'], b ∉ host) (hport : atoi port = some n) :
    ∃ reply, movedTo s command key = some reply ∧
      (Understood reply addr ↔ (ascii "MOVED ").length + addr.length ≤ maxAlloc ∧
        ∃ rest, nodeID.bytes = addr.bytes ++ crlf ++ rest) := by
  refine ⟨_, ?_, understood_moved_iff haddr hne hhost hport⟩
  unfold movedTo
  rw [if_pos ⟨hmode, hkey⟩, hforward]
  rfl

/-- A reply in the form that `EncodeRedirect` gives it is understood. -/
theorem encodeRedirect_understood (host : GoString) (port : Int64) (addr : GoString)
    (haddr : addr.bytes = host.bytes ++ byte ':' :: itoa port) (hne : host.bytes ≠ [])
    (hhost : ∀ b ∈ [byte ':', byte ' ', byte '\n'], b ∉ host.bytes)
    (hfit : (ascii "MOVED ").length + addr.length ≤ maxAlloc) :
    Understood (encodeRedirect host port) addr := by
  have hline := understood_line haddr hne hhost (atoi_itoa port) hfit []
  have hreply : encodeRedirect host port =
      byte '-' :: (ascii "MOVED " ++ addr.bytes ++ crlf ++ []) := by
    simp [encodeRedirect, haddr, ascii, byte]
  rw [hreply]
  exact hline

/-- A node that redirects every request. -/
def redirecting (nodeID addr : GoString) : Server where
  cache := .new 10
  aof := []
  trigger := .new 2
  leader := none
  role := .leader
  clusterMode := true
  forward _ _ := some (nodeID, addr)

/-- A node whose ID begins with its address. -/
theorem redirect_understood_iff_broken : ∃ reply,
    movedTo (redirecting (lit "h:7000\x0d\nn2") (lit "h:7000")) (.str (lit "GET")) (lit "k") =
      some reply ∧ Understood reply (lit "h:7000") := by
  obtain ⟨reply, hreply, hiff⟩ := redirect_understood_iff
    (redirecting (lit "h:7000\x0d\nn2") (lit "h:7000")) (.str (lit "GET")) (lit "k")
    (lit "h:7000\x0d\nn2") (lit "h:7000") (ascii "h") (ascii "7000") 7000 rfl (by decide) rfl
    (by decide) (by decide) (by decide +kernel) (by decide +kernel)
  exact ⟨reply, hreply, hiff.mpr ⟨by decide +kernel, ascii "n2", by decide⟩⟩

/-- The client reads the ID of the node as a part of its address. -/
theorem redirect_misunderstood : ∃ response redirect,
    movedTo (redirecting (lit "n2") (lit "h:7000")) (.str (lit "GET")) (lit "k") =
      some (ascii "-MOVED n2 h:7000\x0d\n") ∧
    parse (ascii "-MOVED n2 h:7000\x0d\n") = .ok (.str response) [] ∧
    isRedirect response = true ∧ parseRedirect response = .ok redirect ∧
    redirect.address = lit "n2 h:7000" := by
  have hredirect : isRedirect (lit "MOVED n2 h:7000") = true := by decide
  have htext : redirectText (lit "MOVED n2 h:7000") = ascii "n2 h" ++ byte ':' :: ascii "7000" := by
    decide +kernel
  obtain ⟨redirect, hok, hbytes⟩ := parseRedirect_of_addr (n := 7000) hredirect htext
    (by decide) (by decide) (by decide +kernel)
  exact ⟨lit "MOVED n2 h:7000", redirect, by decide +kernel,
    parse_error_iff.mpr ⟨by decide, by decide⟩, hredirect, hok, GoString.ext hbytes⟩

end GoCache.Spec
