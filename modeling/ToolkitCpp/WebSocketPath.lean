import ToolkitCpp.Numerals
import ToolkitCpp.Strings

/-!
# The address of the WebSocket server

`WebSocketServer::parseWebSocketPath` with `std::stoi`. It counts the pieces between colons and
leaves it to `std::stoi` whether the second one is a port, after the host has been stored.
-/
namespace ToolkitCpp.WebSocket
open Segments Strings

inductive StoiException
  | invalidArgument
  | outOfRange
  deriving DecidableEq, Repr

/-- `std::stoi`: blanks, a sign and digits; what follows is ignored. -/
def stoi (s : Str) : Except StoiException ℤ :=
  match scanNumber s with
  | none => .error .invalidArgument
  | some (value, _) => if -2 ^ 31 ≤ value ∧ value < 2 ^ 31 then .ok value else .error .outOfRange

/-- `m_wsServerHost` and `m_wsServerPort`. -/
structure ServerAddress where
  wsServerHost : Str := []
  wsServerPort : UInt16 := 0
  deriving DecidableEq, Repr

/-- A call: the address and `errInfo` afterwards, and the result or the exception. -/
structure Parsed where
  address : ServerAddress
  errInfo : Str
  result : Except StoiException Bool
  deriving DecidableEq

def parseWebSocketPath (address : ServerAddress) (errInfo credens : Str) : Parsed :=
  if startsWith credens (txt "ws://") then
    let wsPath := ((cutAt (txt "://") credens).map Prod.snd).getD []
    if wsPath = [] then ⟨address, txt "Заданы пустые креды!", .ok false⟩
    else
      match stdvSplit wsPath (txt ":") with
      | [host, port] =>
          let address := { address with wsServerHost := host }
          match stoi port with
          | .error e => ⟨address, errInfo, .error e⟩
          | .ok value => ⟨{ address with wsServerPort := UInt16.ofInt value }, errInfo, .ok true⟩
      | _ => ⟨address, txt "Неверный формат ws-кредов: " ++ wsPath, .ok false⟩
  else if (stdvSplit credens (txt "://")).length > 1 then
    ⟨address, txt "Неверный тип кредов для websocket: " ++ credens, .ok false⟩
  else ⟨address, errInfo, .ok false⟩

/-- The credentials are `ws://host:port`. -/
structure IsAddress (credens host port : Str) : Prop where
  eq : credens = txt "ws://" ++ (host ++ ':' :: port)
  host_ne : host ≠ []
  host_colon : ':' ∉ host
  number : IsNumber port
  range : decimal port ≤ 65535

/-- The host and the port of an address are stored; anything else is refused with a reason and
stores nothing. -/
def ParsesRight (address : ServerAddress) (errInfo credens : Str) : Prop :=
  let parsed := parseWebSocketPath address errInfo credens
  (∃ host port, IsAddress credens host port ∧ parsed.result = .ok true ∧
    parsed.address.wsServerHost = host ∧ parsed.address.wsServerPort.toNat = decimal port) ∨
  ((¬ ∃ host port, IsAddress credens host port) ∧ parsed.result = .ok false ∧
    parsed.errInfo ≠ [] ∧ parsed.address = address)

lemma stoi_number {port : Str} (h : IsNumber port) (hrange : decimal port ≤ 65535) :
    stoi port = .ok (decimal port) := by
  have hscan : scanNumber (port ++ []) = some ((decimal port : ℤ), []) := scanNumber_number h rfl
  have hint : -2 ^ 31 ≤ (decimal port : ℤ) ∧ (decimal port : ℤ) < 2 ^ 31 := by omega
  rw [List.append_nil] at hscan
  simp only [stoi, hscan, if_pos hint]

lemma cutAt_ws (rest : Str) : cutAt (txt "://") (txt "ws://" ++ rest) = some (txt "ws", rest) := by
  simp [cutAt, txt]

lemma IsAddress.pieces {credens host port : Str} (h : IsAddress credens host port) :
    stdvSplit (host ++ ':' :: port) (txt ":") = [host, port] := by
  have hport : ':' ∉ port := fun hc => h.number.ne_of_mem hc (by decide) rfl
  have hne : host ++ ':' :: port ≠ [] := by simp
  have hsplit := stdvSplit_letter hne ':'
  rw [lines_segment h.host_colon, lines_last hport h.number.1] at hsplit
  exact hsplit

/-- The text behind `ws://`, where it is not empty. -/
lemma parseWebSocketPath_ws {rest : Str} (hne : rest ≠ []) (address : ServerAddress)
    (errInfo : Str) : parseWebSocketPath address errInfo (txt "ws://" ++ rest) =
      match stdvSplit rest (txt ":") with
      | [host, port] =>
          match stoi port with
          | .error e => ⟨{ address with wsServerHost := host }, errInfo, .error e⟩
          | .ok value => ⟨⟨host, UInt16.ofInt value⟩, errInfo, .ok true⟩
      | _ => ⟨address, txt "Неверный формат ws-кредов: " ++ rest, .ok false⟩ := by
  have hstarts : startsWith (txt "ws://" ++ rest) (txt "ws://") = true := by
    simp [startsWith]
  rw [parseWebSocketPath, if_pos hstarts, cutAt_ws]
  simp only [Option.map_some, Option.getD_some, if_neg hne]

lemma IsAddress.parsesRight {credens host port : Str} (h : IsAddress credens host port)
    (address : ServerAddress) (errInfo : Str) : ParsesRight address errInfo credens := by
  have hparse : parseWebSocketPath address errInfo credens =
      ⟨⟨host, UInt16.ofInt (decimal port)⟩, errInfo, .ok true⟩ := by
    rw [h.eq, parseWebSocketPath_ws (by simp)]
    simp only [h.pieces, stoi_number h.number h.range]
  have hport : (UInt16.ofInt (decimal port)).toNat = decimal port := by
    have hrange := h.range
    rw [UInt16.ofInt, UInt16.toNat_ofNat']
    omega
  left
  refine ⟨host, port, h, ?_⟩
  rw [hparse]
  exact ⟨rfl, rfl, hport⟩

/-- Where there is no address, a call is right if it returns false with a reason and stores
nothing. -/
lemma parsesRight_iff_of_not {address : ServerAddress} {errInfo credens : Str}
    (h : ¬ ∃ host port, IsAddress credens host port) :
    ParsesRight address errInfo credens ↔
      (parseWebSocketPath address errInfo credens).result = .ok false ∧
        (parseWebSocketPath address errInfo credens).errInfo ≠ [] ∧
        (parseWebSocketPath address errInfo credens).address = address := by
  constructor
  · rintro (⟨host, port, haddr, -⟩ | ⟨-, hright⟩)
    · exact absurd ⟨host, port, haddr⟩ h
    · exact hright
  · intro hright
    exact .inr ⟨h, hright⟩

/-- With two pieces the call returns true or throws. -/
lemma result_of_two_pieces {rest : Str} (hne : rest ≠ [])
    (h : (stdvSplit rest (txt ":")).length = 2) (address : ServerAddress) (errInfo : Str) :
    (parseWebSocketPath address errInfo (txt "ws://" ++ rest)).result ≠ .ok false := by
  obtain ⟨host, port, hpieces⟩ := List.length_eq_two.mp h
  rw [parseWebSocketPath_ws hne]
  simp only [hpieces]
  cases stoi port with
  | error e =>
    intro hresult
    cases hresult
  | ok value =>
    intro hresult
    cases hresult

/-- With another number of pieces it is refused. -/
lemma parseWebSocketPath_pieces {rest : Str} (hne : rest ≠ [])
    (h : (stdvSplit rest (txt ":")).length ≠ 2) (address : ServerAddress) (errInfo : Str) :
    parseWebSocketPath address errInfo (txt "ws://" ++ rest) =
      ⟨address, txt "Неверный формат ws-кредов: " ++ rest, .ok false⟩ := by
  rw [parseWebSocketPath_ws hne]
  split
  · rename_i hpieces
    rw [hpieces] at h
    exact absurd rfl h
  · rfl

lemma parseWebSocketPath_other {credens : Str} (h : ¬ txt "ws://" <+: credens)
    (address : ServerAddress) (errInfo : Str) :
    parseWebSocketPath address errInfo credens =
      if (stdvSplit credens (txt "://")).length > 1 then
        ⟨address, txt "Неверный тип кредов для websocket: " ++ credens, .ok false⟩
      else ⟨address, errInfo, .ok false⟩ := by
  have hstarts : ¬ startsWith credens (txt "ws://") = true := by
    rw [startsWith, List.isPrefixOf_iff_prefix]
    exact h
  rw [parseWebSocketPath, if_neg hstarts]

/-- A call is right exactly for an address, for nothing or another number of pieces than two behind
`ws://`, and for credentials of another kind that have a text behind their `://` or meet an
`errInfo` that is already set. -/
theorem parsesRight_iff (address : ServerAddress) (errInfo credens : Str) :
    ParsesRight address errInfo credens ↔
      (∃ host port, IsAddress credens host port) ∨
      (∃ rest, credens = txt "ws://" ++ rest ∧
        (rest = [] ∨ (stdvSplit rest (txt ":")).length ≠ 2)) ∨
      (¬ txt "ws://" <+: credens ∧
        (1 < (stdvSplit credens (txt "://")).length ∨ errInfo ≠ [])) := by
  by_cases haddr : ∃ host port, IsAddress credens host port
  · obtain ⟨host, port, h⟩ := haddr
    exact iff_of_true (h.parsesRight address errInfo) (.inl ⟨host, port, h⟩)
  rw [parsesRight_iff_of_not haddr, or_iff_right haddr]
  by_cases hws : txt "ws://" <+: credens
  · obtain ⟨rest, rfl⟩ := hws
    have hother : ¬ ¬ txt "ws://" <+: txt "ws://" ++ rest := not_not.mpr (List.prefix_append _ _)
    rw [or_iff_left (fun h => hother h.1)]
    constructor
    · rintro ⟨hresult, -, -⟩
      refine ⟨rest, rfl, ?_⟩
      by_contra hnot
      rw [not_or, not_not] at hnot
      exact result_of_two_pieces hnot.1 hnot.2 address errInfo hresult
    · rintro ⟨rest', heq, hrest⟩
      obtain rfl := List.append_cancel_left heq
      by_cases hnil : rest = []
      · have hempty : parseWebSocketPath address errInfo (txt "ws://" ++ rest) =
            ⟨address, txt "Заданы пустые креды!", .ok false⟩ := by
          rw [hnil]
          rfl
        rw [hempty]
        exact ⟨rfl, by simp [txt], rfl⟩
      · rw [parseWebSocketPath_pieces hnil (hrest.resolve_left hnil)]
        exact ⟨rfl, by simp [txt], rfl⟩
  · have hnone : ¬ ∃ rest, credens = txt "ws://" ++ rest ∧
        (rest = [] ∨ (stdvSplit rest (txt ":")).length ≠ 2) := by
      rintro ⟨rest, rfl, -⟩
      exact hws (List.prefix_append _ _)
    rw [or_iff_right hnone, and_iff_right hws, parseWebSocketPath_other hws]
    by_cases hkind : (stdvSplit credens (txt "://")).length > 1
    · rw [if_pos hkind]
      exact iff_of_true ⟨rfl, by simp [txt], rfl⟩ (.inl hkind)
    · rw [if_neg hkind, or_iff_right hkind]
      simp

/-- `std::stoi` throws on the port `http`, after the host has been stored. -/
theorem parses_wrong : ¬ ∀ (address : ServerAddress) (errInfo credens : Str),
    ParsesRight address errInfo credens := by
  intro h
  have hthrows : (parseWebSocketPath {} [] (txt "ws://localhost:http")).result =
      .error .invalidArgument := by decide
  rcases h {} [] (txt "ws://localhost:http") with ⟨host, port, -, hresult, -⟩ | ⟨-, hresult, -⟩
  · rw [hthrows] at hresult
    cases hresult
  · rw [hthrows] at hresult
    cases hresult

end ToolkitCpp.WebSocket
