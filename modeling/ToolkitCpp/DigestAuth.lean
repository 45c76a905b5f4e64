import ToolkitCpp.Patterns
import ToolkitCpp.Text
import Mathlib.Data.List.Sublists
import Mathlib.Data.Set.Finite.Lemmas

/-!
# Digest authentication of the HTTP server

`authentication_handler` with `MD5` as a parameter. The path that enters the digest is cut out of
the header, and the path of the request is not looked at.
-/
namespace ToolkitCpp.DigestAuth
open Segments Patterns

structure Request where
  method : Str
  path : Str
  authorization : Str
  deriving DecidableEq, Repr

inductive Outcome
  | callback
  | unauthorized (authenticate : Str)
  deriving DecidableEq, Repr

def realmStr : Str := txt "Glosav"

def nonceStr : Str := txt "Ny8yLzIwMDIgMzoyNjoyNCBQTQ"

def HA1 : Str := txt "9285fe49721f13d8af6af59858c286c8"

def buildAuthenticateHeader : Str :=
  txt "Digest realm=\"" ++ realmStr ++ txt "\"," ++ txt "algorithm=\"MD5\"," ++ txt "stale=false," ++
    txt "opaque=\"0000000000000000\"," ++ txt "nonce=\"" ++ nonceStr ++ txt "\""

/-- A byte with `std::hex`, `std::setfill('0')` and `std::setw(2)`. -/
def hexByte (b : UInt8) : Str := [Nat.digitChar (b.toNat / 16), Nat.digitChar (b.toNat % 16)]

def hex (bytes : List UInt8) : Str := bytes.flatMap hexByte

variable (MD5 : Str → List UInt8)

def generateMD5HA2 (methodType digestURI : Str) : Str :=
  hex (MD5 (methodType ++ txt ":" ++ digestURI))

def generateMD5Resp (HA1 nonce HA2 : Str) : Str :=
  hex (MD5 (HA1 ++ txt ":" ++ nonce ++ txt ":" ++ HA2))

/-- `std::string::find` for a pattern that is not empty. -/
def find (s pat : Str) (pos : ℕ) : ℕ := (findFrom s pat pos).getD npos

/-- The URI that is cut out of the header; `size_t` wraps around. -/
def digestURI (authorisation : Str) : Except StdException Str :=
  if authorisation = [] then .ok (txt "/")
  else
    let posB := find authorisation (txt "uri=\"") 0
    let posE := find authorisation (txt "\",") ((posB + 5) % 2 ^ 64)
    substr authorisation ((posB + 5) % 2 ^ 64) ((posE + 2 * 2 ^ 64 - posB - 5) % 2 ^ 64)

/-- `std::regex` for patterns whose only operators are `.` and `*`. -/
def regex : Str → List (Item Char)
  | [] => []
  | [c] => [once (atom c)]
  | c :: d :: s => if d = '*' then many (atom c) :: regex s else once (atom c) :: regex (d :: s)

def authenticationHandler (request : Request) : Except StdException Outcome :=
  match digestURI request.authorization with
  | .error e => .error e
  | .ok uri =>
      let HA2 := generateMD5HA2 MD5 request.method uri
      let RespH := generateMD5Resp MD5 HA1 nonceStr HA2
      let strResponse := txt ".*response=" ++ txt "\"" ++ RespH ++ txt "\"" ++ txt ".*"
      if matchWhole (regex strResponse) request.authorization then .ok .callback
      else .ok (.unauthorized buildAuthenticateHeader)

/-- The response for a method and a path. -/
def response (method path : Str) : Str :=
  generateMD5Resp MD5 HA1 nonceStr (generateMD5HA2 MD5 method path)

def Carries (header resp : Str) : Prop := txt "response=\"" ++ resp ++ txt "\"" <:+: header

def Invokes (request : Request) : Prop := authenticationHandler MD5 request = .ok .callback

/-- The header's own URI is `uri`, and the header is one line that carries the response for it. -/
def Answers (method header uri : Str) : Prop :=
  digestURI header = .ok uri ∧
    ∃ u v, header = u ++ (txt "response=\"" ++ response MD5 method uri ++ txt "\"" ++ v) ∧
      (∀ c ∈ u, isAny c = true) ∧ ∀ c ∈ v, isAny c = true

/-- The header has the field of a response at one place at most. -/
def OneResponse (header : Str) : Prop :=
  ∀ u v u' v', header = u ++ (txt "response=\"" ++ v) → header = u' ++ (txt "response=\"" ++ v') →
    u = u'

/-- The callback is invoked only if the header carries the response for the request's path. -/
def Binds (request : Request) : Prop :=
  Invokes MD5 request →
    Carries request.authorization (response MD5 request.method request.path)

variable {MD5}

/-- The word has none of the two operators. -/
def IsPlain (word : Str) : Prop := word.all (fun c => c != '.' && c != '*') = true

lemma regex_plain {word : Str} (h : IsPlain word) :
    regex (word ++ txt ".*") = literal word ++ [many isAny] := by
  induction word with
  | nil => rfl
  | cons c word ih =>
    rw [IsPlain, List.all_cons, Bool.and_eq_true, Bool.and_eq_true, bne_iff_ne] at h
    obtain ⟨⟨hdot, -⟩, hrest⟩ := h
    have hatom : atom c = (· == c) := if_neg hdot
    have hnext : regex (c :: (word ++ txt ".*")) = once (atom c) :: regex (word ++ txt ".*") := by
      cases word with
      | nil => rfl
      | cons d word =>
        rw [List.all_cons, Bool.and_eq_true, Bool.and_eq_true, bne_iff_ne, bne_iff_ne] at hrest
        have hd : d ≠ '*' := hrest.1.2
        rw [List.cons_append, regex, if_neg hd]
    rw [List.cons_append, hnext, ih hrest, hatom]
    rfl

lemma digitChar_plain {n : ℕ} (h : n < 16) :
    (Nat.digitChar n != '.' && Nat.digitChar n != '*') = true := by
  have hall : ∀ d : Fin 16, (Nat.digitChar d != '.' && Nat.digitChar d != '*') = true := by decide
  exact hall ⟨n, h⟩

lemma isPlain_hex (bytes : List UInt8) : IsPlain (hex bytes) := by
  rw [IsPlain, List.all_eq_true]
  intro c hc
  obtain ⟨b, -, hb⟩ := List.mem_flatMap.mp hc
  have hlt := b.toNat_lt
  rw [hexByte, List.mem_pair] at hb
  rcases hb with rfl | rfl
  · exact digitChar_plain (by omega)
  · exact digitChar_plain (by omega)

lemma IsPlain.append {a b : Str} (ha : IsPlain a) (hb : IsPlain b) : IsPlain (a ++ b) := by
  rw [IsPlain, List.all_append, Bool.and_eq_true]
  exact ⟨ha, hb⟩

/-- The pattern of the handler holds the text that a header has to carry. -/
lemma matches_response {bytes : List UInt8} {header : Str} :
    matchWhole (regex (txt ".*response=" ++ txt "\"" ++ hex bytes ++ txt "\"" ++ txt ".*")) header =
        true ↔
      ∃ u v, header = u ++ (txt "response=\"" ++ hex bytes ++ txt "\"" ++ v) ∧
        (∀ c ∈ u, isAny c = true) ∧ ∀ c ∈ v, isAny c = true := by
  have hhead : IsPlain (txt "response=\"") := by
    rw [IsPlain]
    decide
  have htail : IsPlain (txt "\"") := by
    rw [IsPlain]
    decide
  have hplain := (hhead.append (isPlain_hex bytes)).append htail
  have hregex : regex (txt ".*response=" ++ txt "\"" ++ hex bytes ++ txt "\"" ++ txt ".*") =
      many isAny :: (literal (txt "response=\"" ++ hex bytes ++ txt "\"") ++ [many isAny]) := by
    rw [← regex_plain hplain]
    rfl
  rw [hregex, matchWhole_holds]

lemma invokes_iff {r : Request} :
    Invokes MD5 r ↔ ∃ uri, Answers MD5 r.method r.authorization uri := by
  unfold Invokes authenticationHandler Answers
  cases digestURI r.authorization with
  | error e => simp
  | ok uri =>
    simp only [Except.ok.injEq, exists_eq_left']
    rw [response, generateMD5Resp, ← matches_response]
    split_ifs with h
    · exact iff_of_true rfl h
    · exact iff_of_false (by simp) h

lemma Answers.carries {method header uri : Str} (h : Answers MD5 method header uri) :
    Carries header (response MD5 method uri) := by
  obtain ⟨-, u, v, hheader, -⟩ := h
  refine ⟨u, v, ?_⟩
  rw [hheader]
  simp only [List.append_assoc]

/-- The path of the request plays no role. -/
lemma Invokes.anyPath {r : Request} (h : Invokes MD5 r) (path : Str) :
    Invokes MD5 { r with path := path } := h

lemma hexByte_injective : Function.Injective hexByte := by
  have hdigit : ∀ d e : Fin 16, Nat.digitChar d = Nat.digitChar e → d = e := by decide
  intro a b h
  have ha := a.toNat_lt
  have hb := b.toNat_lt
  obtain ⟨hhigh, hlow⟩ := List.cons_eq_cons.mp h
  have h1 := hdigit ⟨a.toNat / 16, by omega⟩ ⟨b.toNat / 16, by omega⟩ hhigh
  have h2 := hdigit ⟨a.toNat % 16, by omega⟩ ⟨b.toNat % 16, by omega⟩ (List.cons_eq_cons.mp hlow).1
  rw [Fin.mk.injEq] at h1 h2
  apply UInt8.toNat_inj.mp
  omega

/-- Letters with codes of one length can be read back. -/
lemma flatMap_injective {α β : Type*} {code : α → List β} {n : ℕ} (hn : 0 < n)
    (hlen : ∀ a, (code a).length = n) (hcode : Function.Injective code) :
    Function.Injective (List.flatMap code) := by
  intro xs ys h
  induction xs generalizing ys with
  | nil =>
    cases ys with
    | nil => rfl
    | cons y ys =>
      have hzero := congrArg List.length h
      rw [List.flatMap_cons, List.length_append, hlen, List.flatMap_nil, List.length_nil] at hzero
      omega
  | cons x xs ih =>
    cases ys with
    | nil =>
      have hzero := congrArg List.length h
      rw [List.flatMap_cons, List.length_append, hlen, List.flatMap_nil, List.length_nil] at hzero
      omega
    | cons y ys =>
      rw [List.flatMap_cons, List.flatMap_cons] at h
      obtain ⟨hhead, htail⟩ := List.append_inj h ((hlen x).trans (hlen y).symm)
      rw [hcode hhead, ih htail]

lemma hex_injective : Function.Injective hex :=
  flatMap_injective Nat.two_pos (fun _ => rfl) hexByte_injective

lemma response_injective (hMD5 : Function.Injective MD5) (method : Str) :
    Function.Injective (response MD5 method) := by
  intro p q h
  have houter := hMD5 (hex_injective h)
  have hinner := hMD5 (hex_injective (List.append_cancel_left houter))
  exact List.append_cancel_left hinner

/-- No header carries the responses for all paths. -/
lemma not_carries_all (hMD5 : Function.Injective MD5) (method header : Str) :
    ¬ ∀ path, Carries header (response MD5 method path) := by
  intro h
  have hinj : Function.Injective fun path =>
      txt "response=\"" ++ response MD5 method path ++ txt "\"" := by
    intro p q hpq
    exact response_injective hMD5 method
      (List.append_cancel_left (List.append_cancel_right hpq))
  have hmem (path : Str) : txt "response=\"" ++ response MD5 method path ++ txt "\"" ∈
      {l | l ∈ header.sublists} := List.mem_sublists.mpr (h path).sublist
  exact Set.infinite_of_injective_forall_mem hinj hmem header.sublists.finite_toSet

lemma quote_notMem_response (method path : Str) : '"' ∉ response MD5 method path := by
  have hdigit : ∀ d : Fin 16, Nat.digitChar d ≠ '"' := by decide
  intro hmem
  obtain ⟨b, -, hb⟩ := List.mem_flatMap.mp hmem
  have hlt := b.toNat_lt
  rw [hexByte, List.mem_pair] at hb
  rcases hb with hb | hb
  · exact hdigit ⟨b.toNat / 16, by omega⟩ hb.symm
  · exact hdigit ⟨b.toNat % 16, by omega⟩ hb.symm

/-- Words without a quotation mark that stand between the same marks are the same. -/
lemma quoted_inj {a b v w : Str} (ha : '"' ∉ a) (hb : '"' ∉ b)
    (h : a ++ '"' :: v = b ++ '"' :: w) : a = b := by
  have hcut := cutAt_letter ha v
  rw [h, cutAt_letter hb w, Option.some.injEq, Prod.mk.injEq] at hcut
  exact hcut.1.symm

/-- With one field for a response, the header carries the response for one path. -/
lemma OneResponse.path_eq (hMD5 : Function.Injective MD5) {method header p q : Str}
    (hone : OneResponse header) (hp : Carries header (response MD5 method p))
    (hq : Carries header (response MD5 method q)) : p = q := by
  obtain ⟨u, v, hu⟩ := hp
  obtain ⟨u', v', hu'⟩ := hq
  have hleft : header = u ++ (txt "response=\"" ++ (response MD5 method p ++ '"' :: v)) := by
    rw [← hu]
    simp [txt]
  have hright : header = u' ++ (txt "response=\"" ++ (response MD5 method q ++ '"' :: v')) := by
    rw [← hu']
    simp [txt]
  obtain rfl := hone _ _ _ _ hleft hright
  have hfield := List.append_cancel_left (List.append_cancel_left (hleft.symm.trans hright))
  exact response_injective hMD5 method
    (quoted_inj (quote_notMem_response _ _) (quote_notMem_response _ _) hfield)

/-- A request is bound to its path if the URI of a header that answers for its own URI is that
path, and only then as long as the header has no second response. Over all paths a header is bound
exactly when it does not answer for its own URI, and the same holds for its being good for one path
only. -/
theorem digest_bound_iff (MD5 : Str → List UInt8) (hMD5 : Function.Injective MD5) (r : Request) :
    ((∀ uri, Answers MD5 r.method r.authorization uri → uri = r.path) → Binds MD5 r) ∧
    (OneResponse r.authorization →
      (Binds MD5 r ↔ ∀ uri, Answers MD5 r.method r.authorization uri → uri = r.path)) ∧
    ((∀ path, Binds MD5 { r with path := path }) ↔
      ∀ uri, ¬ Answers MD5 r.method r.authorization uri) ∧
    ((∀ p q, p ≠ q → ¬ (Invokes MD5 { r with path := p } ∧ Invokes MD5 { r with path := q })) ↔
      ∀ uri, ¬ Answers MD5 r.method r.authorization uri) := by
  have henough : (∀ uri, Answers MD5 r.method r.authorization uri → uri = r.path) →
      Binds MD5 r := by
    intro hnamed hinv
    obtain ⟨uri, huri⟩ := invokes_iff.mp hinv
    rw [← hnamed uri huri]
    exact huri.carries
  have hinvokes : (∀ uri, ¬ Answers MD5 r.method r.authorization uri) ↔ ¬ Invokes MD5 r := by
    rw [invokes_iff, not_exists]
  refine ⟨henough, ?_, ?_, ?_⟩
  · intro hone
    refine ⟨?_, henough⟩
    intro hbinds uri huri
    exact hone.path_eq hMD5 huri.carries (hbinds (invokes_iff.mpr ⟨uri, huri⟩))
  · rw [hinvokes]
    constructor
    · intro hbinds hinv
      exact not_carries_all hMD5 r.method r.authorization fun path =>
        hbinds path (hinv.anyPath path)
    · intro hnot path hinv
      exact absurd (hinv.anyPath r.path) hnot
  · rw [hinvokes]
    constructor
    · intro hone hinv
      exact hone [] (txt "/") (by decide) ⟨hinv.anyPath _, hinv.anyPath _⟩
    · intro hnot p q _ hboth
      exact hnot (hboth.1.anyPath r.path)

/-- A letter as three bytes. -/
def letterBytes (c : Char) : List UInt8 :=
  [UInt8.ofNat (c.toNat / 65536), UInt8.ofNat (c.toNat / 256 % 256), UInt8.ofNat (c.toNat % 256)]

/-- An injective stand-in for `MD5`. -/
def plainBytes (s : Str) : List UInt8 := s.flatMap letterBytes

lemma letterBytes_injective : Function.Injective letterBytes := by
  intro c d h
  have hc : c.toNat.isValidChar := c.valid
  have hd : d.toNat.isValidChar := d.valid
  simp only [letterBytes, List.cons.injEq, and_true] at h
  obtain ⟨h1, h2, h3⟩ := h
  have g1 := congrArg UInt8.toNat h1
  have g2 := congrArg UInt8.toNat h2
  have g3 := congrArg UInt8.toNat h3
  simp only [UInt8.toNat_ofNat'] at g1 g2 g3
  apply Char.toNat_inj.mp
  unfold Nat.isValidChar at hc hd
  omega

lemma plainBytes_injective : Function.Injective plainBytes :=
  flatMap_injective (by decide : 0 < 3) (fun _ => rfl) letterBytes_injective

/-- A header with the response for `/a`. -/
def headerForA : Str :=
  txt "uri=\"/a\", response=\"" ++ response plainBytes (txt "GET") (txt "/a") ++ txt "\""

lemma digestURI_a (rest : Str) : digestURI (txt "uri=\"/a\"," ++ rest) = .ok (txt "/a") := by
  have hne : txt "uri=\"/a\"," ++ rest ≠ [] := by simp [txt]
  have hB : find (txt "uri=\"/a\"," ++ rest) (txt "uri=\"") 0 = 0 := by
    simp [find, findFrom, cutAt, txt]
  have hE : find (txt "uri=\"/a\"," ++ rest) (txt "\",") 5 = 7 := by
    simp [find, findFrom, cutAt, txt]
  have hpos : (0 + 5) % 2 ^ 64 = 5 := by decide
  have hcount : (7 + 2 * 2 ^ 64 - 0 - 5) % 2 ^ 64 = 2 := by decide
  have hle : 5 ≤ (txt "uri=\"/a\"," ++ rest).length := by simp [txt]
  simp only [digestURI, if_neg hne, hB, hpos, hE, hcount, substr, if_pos hle]
  rfl

lemma digestURI_headerForA : digestURI headerForA = .ok (txt "/a") := by
  rw [headerForA, List.append_assoc]
  exact digestURI_a (txt " response=\"" ++ _)

lemma answers_headerForA : Answers plainBytes (txt "GET") headerForA (txt "/a") := by
  have hany : (txt "uri=\"/a\", ").all isAny = true := by decide
  refine ⟨digestURI_headerForA, txt "uri=\"/a\", ", [], ?_, List.all_eq_true.mp hany, by simp⟩
  rw [List.append_nil]
  rfl

lemma invokes_headerForA (path : Str) : Invokes plainBytes ⟨txt "GET", path, headerForA⟩ :=
  invokes_iff.mpr ⟨txt "/a", answers_headerForA⟩

lemma length_response (method path : Str) :
    (response plainBytes method path).length = 6 * (60 + 6 * (method.length + 1 + path.length)) := by
  have hhex (bytes : List UInt8) : (hex bytes).length = 2 * bytes.length := by
    simp [hex, hexByte, List.length_flatMap, mul_comm]
  have hplain (s : Str) : (plainBytes s).length = 3 * s.length := by
    simp [plainBytes, letterBytes, List.length_flatMap, mul_comm]
  have hcolon : (txt ":").length = 1 := rfl
  have hHA1 : HA1.length = 32 := rfl
  have hnonce : nonceStr.length = 26 := rfl
  simp only [response, generateMD5Resp, generateMD5HA2, hhex, hplain, List.length_append, hcolon,
    hHA1, hnonce]
  omega

theorem digest_bound_iff_headerForA :
    ¬ ∀ path, Binds plainBytes ⟨txt "GET", path, headerForA⟩ := by
  intro h
  exact (digest_bound_iff plainBytes plainBytes_injective ⟨txt "GET", [], headerForA⟩).2.2.1.mp h
    (txt "/a") answers_headerForA

/-- The header for `/a` opens `/secret`. -/
theorem digest_unbound : ¬ ∀ MD5 : Str → List UInt8, Function.Injective MD5 →
    ∀ r : Request, Binds MD5 r := by
  intro h
  obtain ⟨u, v, hheader⟩ := h plainBytes plainBytes_injective ⟨txt "GET", txt "/secret", headerForA⟩
    (invokes_headerForA _)
  -- the response that the header would have to carry is longer than the header
  have hlen := congrArg List.length hheader
  have hneeded : (txt "response=\"").length = 10 := rfl
  have hgiven : (txt "uri=\"/a\", response=\"").length = 20 := rfl
  have hGET : (txt "GET").length = 3 := rfl
  have ha : (txt "/a").length = 2 := rfl
  have hsecret : (txt "/secret").length = 7 := rfl
  simp only [headerForA, List.length_append, length_response, hneeded, hgiven, hGET, ha,
    hsecret] at hlen
  omega

/-- The position of the substring that the handler takes of a header, if it takes one. -/
def substrPos (authorisation : Str) : Option ℕ :=
  if authorisation = [] then none
  else some ((find authorisation (txt "uri=\"") 0 + 5) % 2 ^ 64)

/-- The handler comes to one of its two ends, and what it cuts out starts inside the header. -/
def Completes (MD5 : Str → List UInt8) (r : Request) : Prop :=
  (authenticationHandler MD5 r = .ok .callback ∨
    authenticationHandler MD5 r = .ok (.unauthorized buildAuthenticateHeader)) ∧
  ∀ pos ∈ substrPos r.authorization, pos ≤ r.authorization.length

lemma authenticationHandler_ok {r : Request} {uri : Str} (h : digestURI r.authorization = .ok uri) :
    authenticationHandler MD5 r = .ok .callback ∨
      authenticationHandler MD5 r = .ok (.unauthorized buildAuthenticateHeader) := by
  simp only [authenticationHandler, h]
  split_ifs
  · left
    rfl
  · right
    rfl

/-- Without the marker the position wraps around to 4; behind the marker it is inside. -/
lemma uriPos_le_iff (header : Str) :
    (find header (txt "uri=\"") 0 + 5) % 2 ^ 64 ≤ header.length ↔ 4 ≤ header.length := by
  rw [find, findFrom, if_pos (Nat.zero_le _), List.drop_zero]
  cases hcut : cutAt (txt "uri=\"") header with
  | none =>
    have hwrap : (npos + 5) % 2 ^ 64 = 4 := by decide
    rw [Option.map_none, Option.getD_none, hwrap]
  | some cut =>
    obtain ⟨hheader, -⟩ := cutAt_some (by decide) hcut
    have hlen := congrArg List.length hheader
    have hmarker : (txt "uri=\"").length = 5 := rfl
    simp only [List.length_append, hmarker] at hlen
    rw [Option.map_some, Option.getD_some]
    constructor
    · intro _
      omega
    · intro _
      exact (Nat.mod_le _ _).trans (by omega)

theorem completes_iff (MD5 : Str → List UInt8) (r : Request) :
    Completes MD5 r ↔ r.authorization = [] ∨ 4 ≤ r.authorization.length := by
  by_cases hne : r.authorization = []
  · have huri : digestURI r.authorization = .ok (txt "/") := if_pos hne
    simp [Completes, authenticationHandler_ok huri, substrPos, hne]
  · rw [← uriPos_le_iff, or_iff_right hne]
    have hpos : substrPos r.authorization =
        some ((find r.authorization (txt "uri=\"") 0 + 5) % 2 ^ 64) := if_neg hne
    constructor
    · rintro ⟨-, hbounds⟩
      exact hbounds _ hpos
    · intro hle
      have huri : ∃ uri, digestURI r.authorization = .ok uri := by
        rw [digestURI, if_neg hne]
        exact ⟨_, if_pos hle⟩
      obtain ⟨uri, huri⟩ := huri
      refine ⟨authenticationHandler_ok huri, ?_⟩
      intro pos hmem
      rw [hpos, Option.mem_some_iff] at hmem
      rw [← hmem]
      exact hle

/-- The header `"x"` makes the handler throw. -/
theorem digest_throws : ¬ ∀ (MD5 : Str → List UInt8) (r : Request), Completes MD5 r := by
  intro h
  have hthrows : authenticationHandler plainBytes ⟨txt "GET", txt "/", txt "x"⟩ =
      .error .outOfRange := by
    have huri : digestURI (txt "x") = .error .outOfRange := by decide
    simp only [authenticationHandler, huri]
  obtain ⟨hend, -⟩ := h plainBytes ⟨txt "GET", txt "/", txt "x"⟩
  rw [hthrows] at hend
  rcases hend with hend | hend <;> cases hend

end ToolkitCpp.DigestAuth
