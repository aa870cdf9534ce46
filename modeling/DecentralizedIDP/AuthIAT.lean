import DecentralizedIDP.CryptoPrimitives
import DecentralizedIDP.FoundationsBase64

/-! The identity assertion token: three base64 parts joined by dots, the last of
them the system's signature over the first two. -/
namespace DecentralizedIDP
open Foundations

/-- The system key pair, once `init_system_keys` has loaded it. -/
structure SystemKeys where
  privateKey : Bytes
  publicKey : Bytes

/-- What one call of `issue` reads and draws. -/
structure TokenInputs where
  now : ℚ
  jti : String
  signCoins : Bytes

/-- `int(t)`. -/
def truncate (t : ℚ) : ℤ := t.num.tdiv t.den

namespace Iat

def b64urlEncode (data : Bytes) : List Char :=
  ((urlsafeB64Encode data).reverse.dropWhile (fun c => c == '=')).reverse

def pad (s : List Char) : List Char := s ++ List.replicate ((4-s.length % 4) % 4) '='

def b64urlDecode (s : List Char) : Option Bytes := urlsafeB64Decode (pad s)

def payload (inp : TokenInputs) (did : String) (quorumNodes : List ℤ) : List (String × Json) :=
  let now := truncate inp.now
  [("sub", .str did), ("iat", .int now), ("exp", .int (now+iatTtlSeconds)),
    ("jti", .str inp.jti),
    ("quorum", .arr ((quorumNodes.insertionSort (· ≤ ·)).map Json.int)),
    ("iss", .str "did:decidp:system")]

def header (prim : Primitives) : Json :=
  .obj [("alg", .str prim.algName), ("typ", .str "DECIDP-IAT")]

def issue (prim : Primitives) (keys : Option SystemKeys) (inp : TokenInputs) (did : String)
    (quorumNodes : List ℤ) : Except PyError String :=
  match keys with
  | none => .error (.runtimeError "System keys not initialised — call init_system_keys() first")
  | some keys =>
    let headerB64 := b64urlEncode (encode (dumps (header prim)))
    let payloadB64 := b64urlEncode (encode (dumpsSorted (payload inp did quorumNodes)))
    let signingInput := headerB64 ++ '.' :: payloadB64
    let sig := prim.sign inp.signCoins keys.privateKey (encode (String.ofList signingInput))
    .ok (String.ofList (signingInput ++ '.' :: b64urlEncode sig))

/-- The `jti` of a token, null where it cannot be read. -/
def extractJti (token : String) : Json :=
  match splitChars '.' token.toList with
  | [_, payloadB64, _] =>
    match (b64urlDecode payloadB64).bind loadsBytes with
    | some (.obj ms) => ((Json.obj ms).get? "jti").getD .null
    | _ => .null
  | _ => .null

/-- What one call of `verify_iat` reads of the clock: its value, and whether it is past
the float that a literal stands for. -/
structure VerifyInputs where
  now : ℚ
  pastFloat : String → Bool

/-- `time.time() > exp`, which raises unless `exp` is a number. -/
def isPast (inp : VerifyInputs) : Json → Option Bool
  | .int n => some (decide ((n : ℚ) < inp.now))
  | .bool b => some (decide ((if b then 1 else 0 : ℚ) < inp.now))
  | .float t => some (inp.pastFloat t)
  | _ => none

/-- The payload of a token that is signed and has not expired. Every exception on the way
counts as a refusal. -/
def verifyIat (prim : Primitives) (keys : Option SystemKeys) (inp : VerifyInputs)
    (token : String) : Option Json :=
  match splitChars '.' token.toList with
  | [headerB64, payloadB64, sigB64] =>
    let signingInput := headerB64 ++ '.' :: payloadB64
    -- the order of the two checks does not show: either failure is a refusal
    match b64urlDecode sigB64, keys with
    | some sig, some keys =>
      if !prim.verify keys.publicKey (encode (String.ofList signingInput)) sig then none
      else
        match (b64urlDecode payloadB64).bind loadsBytes with
        | none => none
        | some payload =>
          -- no `exp`, an `exp` that is no number and an `exp` in the past are all refused
          match (payload.get? "exp").bind (isPast inp) with
          | some false => some payload
          | _ => none
    | _, _ => none
  | _ => none

/-- The message and the signature that a token presents. -/
def presented (token : String) : Option (Bytes × Bytes) :=
  match splitChars '.' token.toList with
  | [headerB64, payloadB64, sigB64] =>
    (b64urlDecode sigB64).map (Prod.mk (encode (String.ofList (headerB64 ++ '.' :: payloadB64))))
  | _ => none

theorem issue_ok (prim : Primitives) (keys : SystemKeys) (inp : TokenInputs) (did : String)
    (quorumNodes : List ℤ) : ∃ token, issue prim (some keys) inp did quorumNodes = .ok token :=
  ⟨_, rfl⟩

/-! ## Reading back what was issued -/

/-- Stripping takes the padding off and stops at the last digit. -/
theorem b64urlEncode_eq (data : Bytes) (w : List Char) (hw : CanonicalBase64 w)
    (h : base64Chars data = w ++ base64Padding w.length) : b64urlEncode data = w := by
  have hdrop : w.reverse.dropWhile (fun c => c == '=') = w.reverse := by
    cases hrev : w.reverse with
    | nil => rfl
    | cons c cs =>
      have hc : c ∈ w := List.mem_reverse.mp (by simp [hrev])
      rw [List.dropWhile_cons_of_neg (by simpa using (hw.ne_sign c hc).1)]
  rw [b64urlEncode, urlsafeB64Encode, h, base64Padding, List.reverse_append,
    List.reverse_replicate, List.dropWhile_append_of_pos (by simp), hdrop, List.reverse_reverse]

theorem b64urlEncode_canonical (data : Bytes) : CanonicalBase64 (b64urlEncode data) := by
  obtain ⟨w, hw, heq⟩ := base64Chars_canonical data
  rw [b64urlEncode_eq data w hw heq]
  exact hw

theorem b64urlEncode_split (data : Bytes) : pad (b64urlEncode data) = urlsafeB64Encode data ∧
    '.' ∉ b64urlEncode data := by
  obtain ⟨w, hw, heq⟩ := base64Chars_canonical data
  rw [b64urlEncode_eq data w hw heq]
  exact ⟨by rw [pad, urlsafeB64Encode, heq, base64Padding],
    fun hdot => (hw.ne_sign '.' hdot).2 rfl⟩

theorem b64urlDecode_encode (data : Bytes) : b64urlDecode (b64urlEncode data) = some data := by
  rw [b64urlDecode, (b64urlEncode_split data).1, urlsafeB64Decode_encode]

/-- The canonical texts are those that decoding and encoding again leaves as they are. -/
theorem b64urlEncode_decode_iff (w : List Char) :
    (b64urlDecode w).map b64urlEncode = some w ↔ CanonicalBase64 w := by
  constructor
  · intro h
    obtain ⟨data, -, hdata⟩ := Option.map_eq_some_iff.mp h
    rw [← hdata]
    exact b64urlEncode_canonical data
  · intro hw
    obtain ⟨data, hdata⟩ := base64Chars_surjective w hw
    have hencode := b64urlEncode_eq data w hw hdata
    rw [← hencode, b64urlDecode_encode, Option.map_some]

/-- The text that a token's signature is over. -/
def signingInput (prim : Primitives) (inp : TokenInputs) (did : String) (quorumNodes : List ℤ) :
    List Char :=
  b64urlEncode (encode (dumps (header prim))) ++
    '.' :: b64urlEncode (encode (dumpsSorted (payload inp did quorumNodes)))

theorem issue_eq (prim : Primitives) (keys : SystemKeys) (inp : TokenInputs) (did : String)
    (quorumNodes : List ℤ) : issue prim (some keys) inp did quorumNodes =
      .ok (String.ofList (signingInput prim inp did quorumNodes ++ '.' :: b64urlEncode
        (prim.sign inp.signCoins keys.privateKey
          (encode (String.ofList (signingInput prim inp did quorumNodes)))))) := rfl

section Payload
variable (inp : TokenInputs) (did : String) (quorumNodes : List ℤ)

theorem payload_valid : ∀ m ∈ payload inp did quorumNodes, m.2.Valid := by
  simp [payload, Json.Valid, validElems_iff]

theorem payload_keys_nodup : ((payload inp did quorumNodes).map Prod.fst).Nodup := by
  simp only [payload, List.map_cons, List.map_nil]
  decide

theorem loadsBytes_payload : loadsBytes (encode (dumpsSorted (payload inp did quorumNodes))) =
    some (.obj (sortMembers (payload inp did quorumNodes))) := by
  have hloads := loads_dumpsSorted _ (payload_valid inp did quorumNodes)
  -- the text of an object begins with a brace and a quote
  have hbrace : ∃ cs, dumpsSorted (payload inp did quorumNodes) =
      String.ofList ('\x7b' :: '"' :: cs) := by
    cases hms : sortMembers (payload inp did quorumNodes) with
    | nil =>
      have hlen := congrArg List.length hms
      rw [sortMembers, List.length_insertionSort] at hlen
      cases hlen
    | cons m ms =>
      rw [dumpsSorted, hms, dumps]
      exact ⟨_, rfl⟩
  obtain ⟨cs, hcs⟩ := hbrace
  rw [hcs] at hloads ⊢
  rw [loadsBytes_encode '\x7b' '"' cs 0x7b 0x22 (by decide) (by decide) (by decide) (by decide)
    (by decide), hloads]

theorem payload_get? (k : String) (v : Json) (hm : (k, v) ∈ payload inp did quorumNodes) :
    (Json.obj (sortMembers (payload inp did quorumNodes))).get? k = some v :=
  get?_sortMembers _ k v (payload_keys_nodup inp did quorumNodes) hm

theorem payload_exp (clock : VerifyInputs) :
    ((Json.obj (sortMembers (payload inp did quorumNodes))).get? "exp").bind (isPast clock) =
      some (decide (((truncate inp.now+iatTtlSeconds : ℤ) : ℚ) < clock.now)) := by
  rw [payload_get? inp did quorumNodes "exp" (.int (truncate inp.now+iatTtlSeconds))
    (by simp [payload])]
  rfl

end Payload

/-- A token is accepted only if its first two parts are signed, and the second one is what
the accepted payload is read from. -/
theorem verifyIat_some (prim : Primitives) (keys : SystemKeys) (inp : VerifyInputs)
    (token : String) (result : Json) (h : verifyIat prim (some keys) inp token = some result) :
    ∃ headerB64 payloadB64 sig, '.' ∉ headerB64 ∧ '.' ∉ payloadB64 ∧
      presented token = some (encode (String.ofList (headerB64 ++ '.' :: payloadB64)), sig) ∧
      prim.verify keys.publicKey (encode (String.ofList (headerB64 ++ '.' :: payloadB64))) sig =
        true ∧
      (b64urlDecode payloadB64).bind loadsBytes = some result ∧
      (result.get? "exp").bind (isPast inp) = some false := by
  have hdots := splitChars_no_sep '.' token.toList
  rw [verifyIat] at h
  split at h
  · next headerB64 payloadB64 sigB64 hsplit =>
    -- the exits in their order: the parts, the signature, the payload, the clock
    simp only [hsplit, List.forall_mem_cons] at hdots
    cases hsig : b64urlDecode sigB64 with
    | none => simp [hsig] at h
    | some sig =>
      simp only [hsig] at h
      cases hverify : prim.verify keys.publicKey
          (encode (String.ofList (headerB64 ++ '.' :: payloadB64))) sig with
      | false =>
        simp only [hverify, Bool.not_false, ↓reduceIte] at h
        cases h
      | true =>
        simp only [hverify, Bool.not_true, Bool.false_eq_true, ↓reduceIte] at h
        cases hload : (b64urlDecode payloadB64).bind loadsBytes with
        | none => simp [hload] at h
        | some payload =>
          simp only [hload] at h
          split at h
          · next hpast =>
            cases h
            refine ⟨headerB64, payloadB64, sig, hdots.1, hdots.2.1, ?_, hverify, hload, hpast⟩
            simp only [presented, hsplit, hsig, Option.map_some]
          · cases h
  · cases h

/-- The signed text fixes the payload. -/
theorem payload_of_signed (prim : Primitives) (inp : TokenInputs) (did : String)
    (quorumNodes : List ℤ) (headerB64 payloadB64 : List Char) (hheader : '.' ∉ headerB64)
    (h : encode (String.ofList (headerB64 ++ '.' :: payloadB64)) =
      encode (String.ofList (signingInput prim inp did quorumNodes))) :
    (b64urlDecode payloadB64).bind loadsBytes =
      some (.obj (sortMembers (payload inp did quorumNodes))) := by
  have hchars := String.ofList_injective (encode_injective h)
  rw [signingInput] at hchars
  have hdot := (b64urlEncode_split (encode (dumps (header prim)))).2
  -- neither header contains a dot, so the first dot splits both texts at the same place
  rw [(append_sep_inj '.' _ _ payloadB64 _ hheader hdot hchars).2, b64urlDecode_encode,
    Option.bind_some, loadsBytes_payload]

section Issued
variable (prim : Primitives) (keys : SystemKeys) (inp : TokenInputs) (did : String)
  (quorumNodes : List ℤ) (token : String)
  (hissue : issue prim (some keys) inp did quorumNodes = .ok token)
include hissue

/-- No part contains the separator, so the token splits where it was joined. -/
theorem splitChars_issue : splitChars '.' token.toList =
    [b64urlEncode (encode (dumps (header prim))),
      b64urlEncode (encode (dumpsSorted (payload inp did quorumNodes))),
      b64urlEncode (prim.sign inp.signCoins keys.privateKey
        (encode (String.ofList (signingInput prim inp did quorumNodes))))] := by
  rw [issue_eq, Except.ok.injEq] at hissue
  generalize prim.sign inp.signCoins keys.privateKey
    (encode (String.ofList (signingInput prim inp did quorumNodes))) = sig at hissue ⊢
  rw [← hissue, String.toList_ofList, signingInput, List.append_assoc, List.cons_append,
    splitChars_append '.' _ _ (b64urlEncode_split _).2,
    splitChars_append '.' _ _ (b64urlEncode_split _).2,
    splitChars_single '.' _ (b64urlEncode_split _).2]

/-- What an issued token presents is what was signed for it. -/
theorem presented_issue : presented token =
    some (encode (String.ofList (signingInput prim inp did quorumNodes)),
      prim.sign inp.signCoins keys.privateKey
        (encode (String.ofList (signingInput prim inp did quorumNodes)))) := by
  simp only [presented, splitChars_issue prim keys inp did quorumNodes token hissue,
    b64urlDecode_encode, Option.map_some]
  rfl

theorem extractJti_issue : extractJti token = .str inp.jti := by
  have hjti := payload_get? inp did quorumNodes "jti" (.str inp.jti) (by simp [payload])
  simp only [extractJti, splitChars_issue prim keys inp did quorumNodes token hissue,
    b64urlDecode_encode, Option.bind_some, loadsBytes_payload, hjti, Option.getD_some]

/-- An issued token verifies until it expires. -/
theorem verifyIat_issue_eq (clock : VerifyInputs)
    (hverify : prim.verify keys.publicKey
      (encode (String.ofList (signingInput prim inp did quorumNodes)))
      (prim.sign inp.signCoins keys.privateKey
        (encode (String.ofList (signingInput prim inp did quorumNodes)))) = true) :
    verifyIat prim (some keys) clock token =
      if clock.now ≤ (truncate inp.now+iatTtlSeconds : ℤ) then
        some (.obj (sortMembers (payload inp did quorumNodes)))
      else none := by
  have hsigned := hverify
  rw [signingInput] at hsigned
  simp only [verifyIat, splitChars_issue prim keys inp did quorumNodes token hissue,
    b64urlDecode_encode, signingInput, hsigned, Bool.not_true, Bool.false_eq_true, ↓reduceIte,
    Option.bind_some, loadsBytes_payload, payload_exp]
  by_cases hlive : clock.now ≤ (truncate inp.now+iatTtlSeconds : ℤ)
  · rw [if_pos hlive, decide_eq_false (not_lt.mpr hlive)]
  · rw [if_neg hlive, decide_eq_true (not_le.mp hlive)]

theorem verifyIat_issue (clock : VerifyInputs)
    (hverify : prim.verify keys.publicKey
      (encode (String.ofList (signingInput prim inp did quorumNodes)))
      (prim.sign inp.signCoins keys.privateKey
        (encode (String.ofList (signingInput prim inp did quorumNodes)))) = true)
    (hlive : clock.now ≤ (truncate inp.now+iatTtlSeconds : ℤ)) :
    verifyIat prim (some keys) clock token =
      some (.obj (sortMembers (payload inp did quorumNodes))) := by
  rw [verifyIat_issue_eq prim keys inp did quorumNodes token hissue clock hverify, if_pos hlive]

end Issued

end Iat

end DecentralizedIDP
