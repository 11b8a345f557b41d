import Mathlib.Data.List.TakeWhile
import ComputeArmada.Adapter.Fetch
import ComputeArmada.Agent.Http

/-!
# From the channel to the agent

What `fetch` is given, as a handler of the agent receives it.

* `received` : the request, once its URL is written and parsed;
* `received_path`, `query_received` : its path, and the values of its query, are what they were.
-/

namespace ComputeArmada.Wire
open Adapter Agent

def percent (b : UInt8) : List Char := ['%', Js.hexDigit (b.toNat / 16), Js.hexDigit (b.toNat % 16)]

/-- A query as the URL Standard writes it, of a scheme it knows. -/
def urlQuery (query : List Char) : List Char :=
  query.flatMap fun c =>
    if c.toNat ≤ 32 ∨ c.toNat ∈ [34, 35, 39, 60, 62] ∨ 126 < c.toNat then (String.utf8EncodeChar c).flatMap percent
    else [c]

def received (r : HttpRequest) : Agent.Request :=
  { method := r.method
    path := String.ofList (r.path.toList.takeWhile (· ≠ '?'))
    rawQuery := Utf8.encode (urlQuery ((r.path.toList.dropWhile (· ≠ '?')).drop 1))
    authorization := r.authorization.toList.map bytes
    body := r.body.getD [] }

/-! ## Paths in a query -/

theorem toUTF8_singleton (c : Char) : (String.singleton c).toUTF8.toList = String.utf8EncodeChar c := by
  rw [Utf8.toUTF8_toList, String.toList_singleton, Utf8.encode, List.flatMap_singleton]

theorem urlQuery_append (text text' : List Char) : urlQuery (text ++ text') = urlQuery text ++ urlQuery text' :=
  List.flatMap_append

theorem hexDigit_byte : ∀ n < 16, ∃ b, String.utf8EncodeChar (Js.hexDigit n) = [b] ∧ Hex.value b = some n := by
  have hdigit : ∀ n < 16, (String.utf8EncodeChar (Js.hexDigit n)).map Hex.value = [some n] := by decide
  intro n hn
  obtain ⟨b, hb, hvalue⟩ := List.map_eq_singleton_iff.mp (hdigit n hn)
  exact ⟨b, hb, hvalue⟩

theorem escapes_percent (b : UInt8) : Escapes (Utf8.encode (percent b)) [b] := by
  have hb := b.toNat_lt
  obtain ⟨x, hx, hxvalue⟩ := hexDigit_byte (b.toNat / 16) (by omega)
  obtain ⟨y, hy, hyvalue⟩ := hexDigit_byte (b.toNat % 16) (by omega)
  have hencode : Utf8.encode (percent b) = [37, x, y] := by
    rw [percent, Utf8.encode_cons, Utf8.encode_cons, Utf8.encode_cons, hx, hy]
    rfl
  rw [hencode, ← Hex.ofNat_halves b]
  exact escapes_byte hxvalue hyvalue

theorem escapes_percents (bs : List UInt8) : Escapes (Utf8.encode (bs.flatMap percent)) bs := by
  have hall := Escapes.flatMap fun b (_ : b ∈ bs) => escapes_percent b
  rw [List.flatMap_singleton'] at hall
  rw [Utf8.encode, List.flatMap_assoc]
  exact hall

/-- A percent escape is left alone. -/
theorem urlQuery_percents (bs : List UInt8) : urlQuery (bs.flatMap percent) = bs.flatMap percent := by
  have hdigit : ∀ n < 16, urlQuery [Js.hexDigit n] = [Js.hexDigit n] := by decide
  have hpercent : ∀ b, urlQuery (percent b) = percent b := by
    intro b
    have hb := b.toNat_lt
    have hsign : urlQuery ['%'] = ['%'] := by decide
    have hparts : percent b = ['%'] ++ [Js.hexDigit (b.toNat / 16)] ++ [Js.hexDigit (b.toNat % 16)] := rfl
    rw [hparts, urlQuery_append, urlQuery_append, hsign, hdigit _ (by omega), hdigit _ (by omega)]
  induction bs with
  | nil => rfl
  | cons b bs ih => rw [List.flatMap_cons, urlQuery_append, hpercent, ih]

theorem toNat_unreserved {c : Char} (h : Js.isUnreserved c = true) : c.toNat < 128 := by
  have hmarks : ∀ c ∈ "-_.!~*'()".toList, c.toNat < 128 := by decide
  rcases of_decide_eq_true h with h | h
  · unfold Char.isAlphanum Char.isAlpha Char.isUpper Char.isLower Char.isDigit at h
    simp only [Bool.or_eq_true, Bool.and_eq_true, decide_eq_true_eq, UInt32.le_iff_toNat_le] at h
    have hval : c.val.toNat = c.toNat := rfl
    rw [hval] at h
    simp at h
    omega
  · exact hmarks c h

/-- What `encodeURIComponent` leaves alone the URL does too, but for the quote. -/
theorem unreserved_cases {c : Char} (h : Js.isUnreserved c = true) :
    (urlQuery [c] = [c] ∧ ∃ b, String.utf8EncodeChar c = [b] ∧ b ≠ 37 ∧ b ≠ 43 ∧ b ≠ 38 ∧ b ≠ 59) ∨ c.toNat = 39 := by
  have hall : ∀ n < 128, Js.isUnreserved (Char.ofNat n) = true →
      (urlQuery [Char.ofNat n] = [Char.ofNat n] ∧ String.utf8EncodeChar (Char.ofNat n) = [UInt8.ofNat n] ∧
        UInt8.ofNat n ≠ 37 ∧ UInt8.ofNat n ≠ 43 ∧ UInt8.ofNat n ≠ 38 ∧ UInt8.ofNat n ≠ 59) ∨ n = 39 := by
    decide +kernel
  have hc := hall c.toNat (toNat_unreserved h)
  rw [Char.ofNat_toNat] at hc
  exact (hc h).imp_left fun hplain => ⟨hplain.1, _, hplain.2⟩

theorem escapes_char (c : Char) : Escapes (Utf8.encode (urlQuery (if Js.isUnreserved c then [c]
    else (String.singleton c).toUTF8.toList.flatMap percent))) (String.utf8EncodeChar c) := by
  split
  · rename_i h
    rcases unreserved_cases h with ⟨hurl, b, hb, hmeaning⟩ | hquote
    · rw [hurl, Utf8.encode, List.flatMap_singleton, hb]
      exact escapes_plain hmeaning
    · have hurl : urlQuery [c] = (String.utf8EncodeChar c).flatMap percent := by
        simp [urlQuery, hquote]
      rw [hurl]
      exact escapes_percents _
  · rw [toUTF8_singleton, urlQuery_percents]
    exact escapes_percents _

theorem escapes_component (s : String) :
    Escapes (Utf8.encode (urlQuery (Js.encodeURIComponent s).toList)) (bytes s) := by
  have hall := Escapes.flatMap fun c (_ : c ∈ s.toList) => escapes_char c
  rw [Js.encodeURIComponent, String.toList_ofList, urlQuery, List.flatMap_assoc, Utf8.encode, List.flatMap_assoc]
  exact hall

/-! ## Requests -/

theorem received_bare {r : HttpRequest} (hpath : '?' ∉ r.path.toList) : (received r).path = r.path := by
  have hchars : r.path.toList.takeWhile (· ≠ '?') = r.path.toList :=
    List.takeWhile_eq_self_iff.mpr fun c hc => decide_eq_true (ne_of_mem_of_not_mem hc hpath)
  rw [received, hchars, String.ofList_toList]

theorem received_path {r : HttpRequest} {path query : String} (hr : r.path = path ++ "?" ++ query)
    (hpath : '?' ∉ path.toList) :
    (received r).path = path ∧ (received r).rawQuery = Utf8.encode (urlQuery query.toList) := by
  have hlist : r.path.toList = path.toList ++ '?' :: query.toList := by simp [hr]
  have hchars : ∀ c ∈ path.toList, decide (c ≠ '?') = true :=
    fun c hc => decide_eq_true (ne_of_mem_of_not_mem hc hpath)
  unfold received
  rw [hlist, List.takeWhile_append_of_pos hchars, List.dropWhile_append_of_pos hchars]
  simp

theorem query_append {whole path text key : String} (h : whole = path ++ "?" ++ key) :
    whole ++ text = path ++ "?" ++ (key ++ text) := by rw [h, String.append_assoc]

theorem filePath_eq {endpoint path : String} :
    filePath endpoint path = endpoint ++ "?" ++ ("path=" ++ Js.encodeURIComponent path) := by
  have hmark : "?path=" = "?" ++ "path=" := by decide
  rw [filePath, hmark]
  simp only [String.append_assoc]

theorem boundedPath_eq {endpoint : AgentEndpoint} {path : String} {maxBytes timeoutMs : Nat} :
    (AgentChannel.readFileBoundedRequest endpoint path maxBytes timeoutMs).path =
      "/files/bounded" ++ "?" ++ ("path=" ++ Js.encodeURIComponent path ++ "&maxBytes=" ++ toString maxBytes ++
        "&timeoutMs=" ++ toString timeoutMs) := by
  rw [AgentChannel.readFileBoundedRequest, AgentChannel.fetched, filePath_eq]
  simp only [String.append_assoc]

theorem listPath_eq {endpoint : AgentEndpoint} {path : String} {recursive : Bool} :
    (AgentChannel.listFilesRequest endpoint path recursive).path =
      "/files/list" ++ "?" ++ ("path=" ++ Js.encodeURIComponent path ++
        if recursive then "&recursive=true" else "") := by
  rw [AgentChannel.listFilesRequest, AgentChannel.fetched, filePath_eq]
  simp only [String.append_assoc]

/-! ### The path that a query names -/

/-- A text that is sent as it is. -/
theorem escapes_same {s : String} (h : Js.encodeURIComponent s = s ∧ urlQuery s.toList = s.toList) :
    Escapes (bytes s) (bytes s) := by
  have hs := escapes_component s
  rwa [h.1, h.2] at hs

theorem escapes_path : Escapes (bytes "path") (bytes "path") := escapes_same (by decide)

theorem encode_path (value rest : List Char) :
    Utf8.encode (urlQuery ("path=".toList ++ value ++ rest)) =
      bytes "path" ++ 61 :: (Utf8.encode (urlQuery value) ++ Utf8.encode (urlQuery rest)) := by
  have hkey : Utf8.encode (urlQuery "path=".toList) = bytes "path" ++ [61] := by decide
  rw [urlQuery_append, urlQuery_append, Utf8.encode_append, Utf8.encode_append, hkey]
  simp

/-- The path is read as it was written, whatever parameters follow it. -/
theorem query_received {r : HttpRequest} {path value rest : String}
    (hr : r.path = path ++ "?" ++ ("path=" ++ Js.encodeURIComponent value ++ rest)) (hpath : '?' ∉ path.toList)
    (hrest : rest = "" ∨ ∃ more, rest = "&" ++ more) : (received r).query "path" = bytes value := by
  have hplain : 61 ∉ bytes "path" := by decide
  unfold Agent.Request.query
  rw [(received_path hr hpath).2, String.toList_append, String.toList_append, encode_path]
  rcases hrest with rfl | ⟨more, rfl⟩
  · have hend : Utf8.encode (urlQuery "".toList) = [] := by decide
    rw [hend, List.append_nil, parseQuery_single escapes_path hplain (escapes_component value)]
    simp [valueOf]
  · have hamp : Utf8.encode (urlQuery ("&" ++ more).toList) = 38 :: Utf8.encode (urlQuery more.toList) := by
      have hsign : Utf8.encode (urlQuery "&".toList) = [38] := by decide
      rw [String.toList_append, urlQuery_append, Utf8.encode_append, hsign]
      rfl
    rw [hamp, parseQuery_cons escapes_path hplain (escapes_component value)]
    simp [valueOf]

end ComputeArmada.Wire
