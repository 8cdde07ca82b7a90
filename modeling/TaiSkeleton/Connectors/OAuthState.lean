import TaiSkeleton.Lib.Base64
import TaiSkeleton.Lib.Except
import TaiSkeleton.Lib.JsonParser
import TaiSkeleton.Lib.Split

/-!
# The state of an OAuth flow

The `state` that a provider sends back is an envelope: a payload with the flow and the origin, and
the payload's HMAC tag. A state is read only past its tag; what it is refused with depends on
where the reading stops.
-/

namespace TaiSkeleton.Connectors.OAuth

open Lib

/-- `DecodedState` -/
structure DecodedState where
  flowId : PyString
  origin : PyString
deriving DecidableEq

/-- What `encode` and `decode` raise. -/
inductive StateError where
  | stateInvalid (text : String)
  | valueError (text : String)
  | unicodeEncodeError
  | typeError
  | recursionError
deriving DecidableEq

/-- A SHA-256 digest. -/
abbrev Digest := Vector UInt8 32

/-- `hexdigest` -/
def hexdigest (digest : Digest) : PyString :=
  digest.toList.flatMap fun byte =>
    [JsonText.hexChar (byte.toNat / 16), JsonText.hexChar (byte.toNat % 16)]

/-- `_b64url_encode` -/
def b64urlEncode (data : List UInt8) : PyString := Base64.encode data

/-- `_b64url_decode` of an ASCII text. -/
def b64urlDecode (s : PyString) : Option (List UInt8) :=
  Base64.decode (s ++ Base64.padding s.length)

/-- `str.encode("ascii")` -/
def encodeAscii (text : PyString) : Except StateError (List UInt8) :=
  match asciiBytes text with
  | some bytes => .ok bytes
  | none => .error .unicodeEncodeError

/-- `hmac.compare_digest` of two strings, which have to be ASCII. -/
def compareDigest (a b : PyString) : Except StateError Bool :=
  if a.all CodePoint.isAscii && b.all CodePoint.isAscii then .ok (a == b) else .error .typeError

/-- The payload of a flow: `json.dumps` with sorted keys and no spaces. -/
def payloadJson (flowId origin : PyString) : PyString :=
  codePoint '\x7b' :: (JsonText.dumpString (pyString "f") ++ codePoint ':' ::
    (JsonText.dumpString flowId ++ codePoint ',' ::
      (JsonText.dumpString (pyString "o") ++ codePoint ':' ::
        (JsonText.dumpString origin ++ [codePoint '\x7d']))))

/-- The key of the deployment, HMAC-SHA256, and how many containers `json.loads` may have open
beside the outermost one. -/
structure Signer where
  key : List UInt8
  hmacSha256 : (key message : List UInt8) → Digest
  spare : ℕ

variable (signer : Signer)

/-- The tag of a payload. -/
def Signer.tag (message : List UInt8) : PyString :=
  hexdigest (signer.hmacSha256 signer.key message)

/-- `encode` -/
def encode (flowId origin : PyString) : Except StateError PyString := do
  ensure (flowId != []) (.valueError "flow_id must be non-empty")
  ensure (origin != []) (.valueError "origin must be non-empty")
  let json ← encodeAscii (payloadJson flowId origin)
  let payload := b64urlEncode json
  let message ← encodeAscii payload
  return payload ++ codePoint '.' :: signer.tag message

/-- A member of the payload that has to be a text. -/
def textMember (members : List (PyString × JsonText.JsonValue)) (key : String) (text : String) :
    Except StateError PyString :=
  match JsonText.JsonValue.get members (pyString key) with
  | some (.text s) => if s = [] then .error (.stateInvalid text) else .ok s
  | _ => .error (.stateInvalid text)

/-- What `decode` reads past the tag. -/
def decodePayload (payload : PyString) : Except StateError DecodedState := do
  let undecodable := StateError.stateInvalid "state payload is not decodable"
  match b64urlDecode payload with
  | none => .error undecodable
  | some data =>
    match JsonText.loads signer.spare data with
    | .error .value => .error undecodable
    | .error .recursion => .error .recursionError
    | .ok (.object members) =>
      let flowId ← textMember members "f" "state payload missing flow_id"
      let origin ← textMember members "o" "state payload missing origin"
      return ⟨flowId, origin⟩
    | .ok _ => .error (.stateInvalid "state payload is not a JSON object")

/-- `decode` -/
def decode (state : PyString) : Except StateError DecodedState :=
  if state = [] then .error (.stateInvalid "state must be a non-empty string")
  else
    match state.splitOn (codePoint '.') with
    | [payload, tag] =>
      if payload = [] ∨ tag = [] then .error (.stateInvalid "state envelope has wrong shape")
      else do
        let message ← encodeAscii payload
        let same ← compareDigest (signer.tag message) tag
        ensure same (.stateInvalid "state HMAC mismatch")
        decodePayload signer payload
    | _ => .error (.stateInvalid "state envelope has wrong shape")

/-! ## What is raised -/

/-- The text of a payload, where its bytes are one. -/
def payloadText (payload : PyString) : Option PyString :=
  (b64urlDecode payload).bind fun data => decodeBytes data (detectEncoding data)

/-- A payload overruns the recursion limit. -/
def PayloadOverruns (spare : ℕ) (payload : PyString) : Prop :=
  ∃ text, payloadText payload = some text ∧
    JsonText.Overruns spare JsonText.Parse.start (JsonText.tokens text 0)

/-- A state whose tag verifies, with the members of its payload. -/
structure Verified (state payload : PyString) (members : List (PyString × JsonText.JsonValue)) :
    Prop where
  tagged : ∃ message, asciiBytes payload = some message ∧
    state = payload ++ codePoint '.' :: signer.tag message
  loaded : ∃ data, b64urlDecode payload = some data ∧
    JsonText.loads signer.spare data = .ok (.object members)

/-- A state is answered with the pair of a payload whose tag it has verified, or refused. -/
def Answered (state : PyString) : Prop :=
  (∃ payload members pair, Verified signer state payload members ∧
    decode signer state = .ok pair ∧
    JsonText.JsonValue.get members (pyString "f") = some (.text pair.flowId) ∧
    JsonText.JsonValue.get members (pyString "o") = some (.text pair.origin)) ∨
  ∃ text, decode signer state = .error (.stateInvalid text)

/-- A state of two parts is ASCII, and past its tag its payload stays within the recursion
limit. -/
def Readable (state : PyString) : Prop :=
  ∀ payload tag, state.splitOn (codePoint '.') = [payload, tag] → payload ≠ [] → tag ≠ [] →
    tag.all CodePoint.isAscii = true ∧ ∃ message, asciiBytes payload = some message ∧
      (tag = signer.tag message → ¬PayloadOverruns signer.spare payload)

variable {signer} {state payload tag : PyString}

theorem textMember_eq_ok {members : List (PyString × JsonText.JsonValue)} {key text : String}
    {s : PyString} : textMember members key text = .ok s ↔
      JsonText.JsonValue.get members (pyString key) = some (.text s) ∧ s ≠ [] := by
  unfold textMember
  split
  · next found hfound =>
    rw [hfound]
    split_ifs with hempty
    · subst hempty
      simp
    · simp only [Except.ok.injEq, Option.some.injEq, JsonText.JsonValue.text.injEq]
      constructor
      · rintro rfl
        exact ⟨rfl, hempty⟩
      · rintro ⟨rfl, -⟩
        rfl
  · next hnone =>
    simp only [reduceCtorEq, false_iff, not_and]
    exact fun hfound => absurd hfound (hnone s)

theorem textMember_cases (members : List (PyString × JsonText.JsonValue)) (key text : String) :
    (∃ s, textMember members key text = .ok s) ∨
      textMember members key text = .error (.stateInvalid text) := by
  unfold textMember
  split
  · split_ifs
    · exact .inr rfl
    · exact .inl ⟨_, rfl⟩
  · exact .inr rfl

theorem loads_eq_recursion_iff {spare : ℕ} {data : List UInt8} :
    JsonText.loads spare data = .error .recursion ↔
      ∃ text, decodeBytes data (detectEncoding data) = some text ∧
        JsonText.Overruns spare JsonText.Parse.start (JsonText.tokens text 0) := by
  unfold JsonText.loads
  cases decodeBytes data (detectEncoding data) with
  | none => simp
  | some text =>
    dsimp only
    rw [JsonText.parse_eq_recursion_iff (Nat.zero_le _)]
    simp

theorem payloadOverruns_iff {spare : ℕ} : PayloadOverruns spare payload ↔
    ∃ data, b64urlDecode payload = some data ∧ JsonText.loads spare data = .error .recursion := by
  simp only [PayloadOverruns, payloadText, loads_eq_recursion_iff]
  constructor
  · rintro ⟨text, htext, hoverruns⟩
    obtain ⟨data, hdata, htext⟩ := Option.bind_eq_some_iff.mp htext
    exact ⟨data, hdata, text, htext, hoverruns⟩
  · rintro ⟨data, hdata, text, htext, hoverruns⟩
    exact ⟨text, Option.bind_eq_some_iff.mpr ⟨data, hdata, htext⟩, hoverruns⟩

theorem decodePayload_of_overruns (h : PayloadOverruns signer.spare payload) :
    decodePayload signer payload = .error .recursionError := by
  obtain ⟨data, hdata, hloads⟩ := payloadOverruns_iff.mp h
  unfold decodePayload
  rw [hdata]
  dsimp only
  rw [hloads]

variable (signer) in
/-- Past the tag, only a payload that overruns the recursion limit is not refused as such. -/
theorem decodePayload_cases (payload : PyString) :
    (∃ data members pair, b64urlDecode payload = some data ∧
      JsonText.loads signer.spare data = .ok (.object members) ∧
      decodePayload signer payload = .ok pair ∧
      JsonText.JsonValue.get members (pyString "f") = some (.text pair.flowId) ∧
      JsonText.JsonValue.get members (pyString "o") = some (.text pair.origin)) ∨
    (∃ text, decodePayload signer payload = .error (.stateInvalid text)) ∨
      PayloadOverruns signer.spare payload := by
  unfold decodePayload
  cases hdata : b64urlDecode payload with
  | none => exact .inr (.inl ⟨_, rfl⟩)
  | some data =>
    dsimp only
    cases hloads : JsonText.loads signer.spare data with
    | error e =>
      cases e with
      | value => exact .inr (.inl ⟨_, rfl⟩)
      | recursion => exact .inr (.inr (payloadOverruns_iff.mpr ⟨data, hdata, hloads⟩))
    | ok value =>
      cases value with
      | object members =>
        dsimp only
        rcases textMember_cases members "f" "state payload missing flow_id" with
          ⟨flowId, hflow⟩ | hflow
        · rcases textMember_cases members "o" "state payload missing origin" with
            ⟨origin, horigin⟩ | horigin
          · rw [hflow, horigin]
            exact .inl ⟨data, members, ⟨flowId, origin⟩, rfl, hloads, rfl,
              (textMember_eq_ok.mp hflow).1, (textMember_eq_ok.mp horigin).1⟩
          · rw [hflow, horigin]
            exact .inr (.inl ⟨_, rfl⟩)
        · rw [hflow]
          exact .inr (.inl ⟨_, rfl⟩)
      | text s => exact .inr (.inl ⟨_, rfl⟩)
      | array items => exact .inr (.inl ⟨_, rfl⟩)
      | scalar => exact .inr (.inl ⟨_, rfl⟩)

/-- The reading of a state of two parts. -/
theorem decode_of_parts (hsplit : state.splitOn (codePoint '.') = [payload, tag])
    (hpayload : payload ≠ []) (htag : tag ≠ []) :
    decode signer state = (do
      let message ← encodeAscii payload
      let same ← compareDigest (signer.tag message) tag
      ensure same (.stateInvalid "state HMAC mismatch")
      decodePayload signer payload) := by
  have hstate : state ≠ [] := by
    rintro rfl
    cases hsplit
  rw [decode, if_neg hstate, hsplit]
  dsimp only
  rw [if_neg (not_or.mpr ⟨hpayload, htag⟩)]

/-- A state of another shape is refused. -/
theorem decode_of_shape (h : ∀ payload tag, state.splitOn (codePoint '.') = [payload, tag] →
    payload ≠ [] → tag ≠ [] → False) :
    ∃ text, decode signer state = .error (.stateInvalid text) := by
  unfold decode
  split_ifs with hstate
  · exact ⟨_, rfl⟩
  · split
    · next payload tag hsplit =>
      split_ifs with hempty
      · exact ⟨_, rfl⟩
      · rw [not_or] at hempty
        exact absurd (h payload tag hsplit hempty.1 hempty.2) not_false
    · exact ⟨_, rfl⟩

theorem hexChar_facts {n : ℕ} (h : n < 16) :
    JsonText.hexChar n ≠ codePoint '.' ∧ (JsonText.hexChar n).isAscii = true := by
  have hall : ∀ n < 16, JsonText.hexChar n ≠ codePoint '.' ∧
      (JsonText.hexChar n).isAscii = true := by
    decide
  exact hall n h

/-- A tag is ASCII, without a dot. -/
theorem hexdigest_facts (digest : Digest) :
    ∀ c ∈ hexdigest digest, c ≠ codePoint '.' ∧ c.isAscii = true := by
  intro c hc
  obtain ⟨byte, -, hc⟩ := List.mem_flatMap.mp hc
  have hbyte := byte.toNat_lt
  rcases List.mem_pair.mp hc with rfl | rfl
  · exact hexChar_facts (by omega)
  · exact hexChar_facts (by omega)

theorem tag_isAscii (message : List UInt8) : (signer.tag message).all CodePoint.isAscii = true :=
  List.all_eq_true.mpr fun c hc => (hexdigest_facts _ c hc).2

theorem compareDigest_tag (message : List UInt8) (tag : PyString) :
    compareDigest (signer.tag message) tag =
      if tag.all CodePoint.isAscii then .ok (signer.tag message == tag) else .error .typeError := by
  rw [compareDigest, tag_isAscii, Bool.true_and]

/-- A state is answered or refused exactly if it is readable. -/
theorem answered_iff : Answered signer state ↔ Readable signer state := by
  by_cases hparts : ∃ payload tag, state.splitOn (codePoint '.') = [payload, tag] ∧
      payload ≠ [] ∧ tag ≠ []
  · obtain ⟨payload, tag, hsplit, hpayload, htag⟩ := hparts
    have hdecode : decode signer state = _ := decode_of_parts hsplit hpayload htag
    have hjoin : state = payload ++ codePoint '.' :: tag := by
      have hjoin : [codePoint '.'].intercalate (state.splitOn (codePoint '.')) = state :=
        List.intercalate_splitOn _
      rw [hsplit, intercalate_cons_cons, List.intercalate_singleton] at hjoin
      exact hjoin.symm
    have hreadable : Readable signer state ↔ tag.all CodePoint.isAscii = true ∧
        ∃ message, asciiBytes payload = some message ∧
          (tag = signer.tag message → ¬PayloadOverruns signer.spare payload) := by
      constructor
      · exact fun h => h payload tag hsplit hpayload htag
      · intro h payload' tag' hsplit' _ _
        obtain ⟨rfl, htail⟩ := List.cons.inj (hsplit'.symm.trans hsplit)
        obtain ⟨rfl, -⟩ := List.cons.inj htail
        exact h
    have hraised : ∀ e, decode signer state = .error e → (∀ text, e ≠ .stateInvalid text) →
        ¬Answered signer state := by
      rintro e he hnot (⟨_, _, pair, -, hok, -⟩ | ⟨text, htext⟩)
      · cases he.symm.trans hok
      · exact hnot text (Except.error.inj (he.symm.trans htext))
    rw [hreadable]
    unfold encodeAscii at hdecode
    cases hbytes : asciiBytes payload with
    | none =>
      rw [hbytes] at hdecode
      refine iff_of_false (hraised _ hdecode (by rintro _ ⟨⟩)) ?_
      rintro ⟨-, message, hmessage, -⟩
      cases hmessage
    | some message =>
      rw [hbytes] at hdecode
      dsimp only at hdecode
      rw [ok_bind, compareDigest_tag] at hdecode
      cases hascii : tag.all CodePoint.isAscii with
      | false =>
        rw [hascii] at hdecode
        exact iff_of_false (hraised _ hdecode (by rintro _ ⟨⟩)) fun h => absurd h.1 Bool.false_ne_true
      | true =>
        rw [hascii, if_pos rfl, ok_bind] at hdecode
        by_cases hsame : tag = signer.tag message
        · rw [hsame, beq_self_eq_true, ensure, if_pos rfl, ok_bind] at hdecode
          have hnot : ∀ result, decode signer state = result → result ≠ .error .recursionError →
              ¬PayloadOverruns signer.spare payload := by
            rintro _ rfl hresult hover
            rw [decodePayload_of_overruns hover] at hdecode
            exact hresult hdecode
          rcases decodePayload_cases signer payload with
            ⟨data, members, pair, hdata, hloads, hok, hflow, horigin⟩ | ⟨text, htext⟩ | hover
          · rw [hok] at hdecode
            refine iff_of_true (.inl ⟨payload, members, pair, ⟨⟨message, hbytes, ?_⟩, data, hdata,
              hloads⟩, hdecode, hflow, horigin⟩) ⟨rfl, message, rfl, fun _ =>
              hnot _ hdecode (by rintro ⟨⟩)⟩
            rw [hjoin, hsame]
          · rw [htext] at hdecode
            exact iff_of_true (.inr ⟨text, hdecode⟩) ⟨rfl, message, rfl, fun _ =>
              hnot _ hdecode (by rintro ⟨⟩)⟩
          · rw [decodePayload_of_overruns hover] at hdecode
            refine iff_of_false (hraised _ hdecode (by rintro _ ⟨⟩)) ?_
            rintro ⟨-, other, hother, hreadable⟩
            obtain rfl := Option.some.inj hother
            exact hreadable hsame hover
        · have hfalse : (signer.tag message == tag) = false :=
            beq_eq_false_iff_ne.mpr (Ne.symm hsame)
          rw [hfalse] at hdecode
          refine iff_of_true (.inr ⟨_, hdecode⟩) ⟨rfl, message, rfl, fun h => absurd h hsame⟩
  · refine iff_of_true (.inr (decode_of_shape fun payload tag hsplit hpayload htag =>
      hparts ⟨payload, tag, hsplit, hpayload, htag⟩)) ?_
    exact fun payload tag hsplit hpayload htag =>
      absurd ⟨payload, tag, hsplit, hpayload, htag⟩ hparts

/-! ## The round trip -/

theorem payloadJson_isAscii (flowId origin : PyString) :
    ∀ c ∈ payloadJson flowId origin, c.isAscii = true := by
  simp only [payloadJson, List.forall_mem_cons, List.forall_mem_append]
  exact ⟨by decide, JsonText.dumpString_isAscii _, by decide, JsonText.dumpString_isAscii _,
    by decide, JsonText.dumpString_isAscii _, by decide, JsonText.dumpString_isAscii _, by decide,
    List.forall_mem_nil _⟩

/-- The payload of a flow is read back, its pairs joined. -/
theorem loads_payloadJson (spare : ℕ) (flowId origin : PyString) :
    JsonText.loads spare ((payloadJson flowId origin).map fun c => UInt8.ofNat c.val) =
      .ok (.object [(pyString "f", .text (joinPairs flowId)),
        (pyString "o", .text (joinPairs origin))]) := by
  have hencoding : detectEncoding ((payloadJson flowId origin).map fun c => UInt8.ofNat c.val) =
      .utf8 := rfl
  have htokens : JsonText.tokens (payloadJson flowId origin) 0 =
      [some (.opens .object), some (.text (pyString "f")), some .colon,
        some (.text (joinPairs flowId)), some .comma, some (.text (pyString "o")), some .colon,
        some (.text (joinPairs origin)), some (.closes .object)] := by
    have hclose : JsonText.tokens [codePoint '\x7d'] 0 = [some (.closes .object)] := by decide
    have hf : joinPairs (pyString "f") = pyString "f" := by decide
    have ho : joinPairs (pyString "o") = pyString "o" := by decide
    have hopens : JsonText.punctuation.lookup (codePoint '\x7b') = some (.opens .object) := by
      decide
    have hcolon : JsonText.punctuation.lookup (codePoint ':') = some .colon := by decide
    have hcomma : JsonText.punctuation.lookup (codePoint ',') = some .comma := by decide
    rw [payloadJson, JsonText.tokens_punctuation hopens, JsonText.tokens_dumpString,
      JsonText.tokens_punctuation hcolon, JsonText.tokens_dumpString,
      JsonText.tokens_punctuation hcomma, JsonText.tokens_dumpString,
      JsonText.tokens_punctuation hcolon, JsonText.tokens_dumpString, hclose, hf, ho]
  unfold JsonText.loads
  rw [hencoding, decodeBytes, decodeUtf8_ascii (payloadJson_isAscii flowId origin)]
  dsimp only
  rw [htokens]
  simp [JsonText.parse, JsonText.Parse.stepToken, JsonText.Parse.step, JsonText.Parse.start,
    JsonText.Parse.beginValue, JsonText.Parse.name, JsonText.Parse.put, JsonText.Parse.separate,
    JsonText.Parse.close]

theorem encodeAscii_of_isAscii {text : PyString} (h : ∀ c ∈ text, c.isAscii = true) :
    encodeAscii text = .ok (text.map fun c => UInt8.ofNat c.val) := by
  rw [encodeAscii, asciiBytes, if_pos (List.all_eq_true.mpr h)]

theorem tag_ne_nil (message : List UInt8) : signer.tag message ≠ [] := by
  unfold Signer.tag hexdigest
  intro hnil
  have hlength := (signer.hmacSha256 signer.key message).length_toList
  cases hdigest : (signer.hmacSha256 signer.key message).toList with
  | nil =>
    rw [hdigest] at hlength
    cases hlength
  | cons byte digest =>
    rw [hdigest] at hnil
    cases hnil

theorem joinPairs_ne_nil {text : PyString} (h : text ≠ []) : joinPairs text ≠ [] := by
  unfold joinPairs
  split
  · split_ifs <;> exact List.cons_ne_nil _ _
  · exact h

/-- An envelope is read back, the pairs of its texts joined. -/
theorem decode_encode {flowId origin : PyString} (hflow : flowId ≠ []) (horigin : origin ≠ []) :
    ∃ state, encode signer flowId origin = .ok state ∧
      decode signer state = .ok ⟨joinPairs flowId, joinPairs origin⟩ := by
  have hjson := encodeAscii_of_isAscii (payloadJson_isAscii flowId origin)
  generalize hbytes : (payloadJson flowId origin).map (fun c => UInt8.ofNat c.val) = bytes at hjson
  have hfacts := Base64.encode_facts bytes
  have hmessage := encodeAscii_of_isAscii fun c hc => (hfacts c hc).2
  generalize hsent : (Base64.encode bytes).map (fun c => UInt8.ofNat c.val) = message at hmessage
  refine ⟨Base64.encode bytes ++ codePoint '.' :: signer.tag message, ?_, ?_⟩
  · have hensure : (flowId != []) = true ∧ (origin != []) = true := by simp [hflow, horigin]
    unfold encode
    rw [hensure.1, hensure.2, hjson]
    simp only [ensure, if_true, ok_bind, b64urlEncode, hmessage]
    rfl
  · have hdot : codePoint '.' ∉ Base64.encode bytes := fun hmem => (hfacts _ hmem).1 rfl
    have htag : codePoint '.' ∉ signer.tag message := fun hmem => (hexdigest_facts _ _ hmem).1 rfl
    have hsplit : (Base64.encode bytes ++ codePoint '.' :: signer.tag message).splitOn
        (codePoint '.') = [Base64.encode bytes, signer.tag message] := by
      rw [List.splitOn_append_cons_self_of_not_mem hdot, List.splitOn_eq_singleton htag]
    have hpayload : Base64.encode bytes ≠ [] := by
      rw [← hbytes]
      exact List.cons_ne_nil _ _
    rw [decode_of_parts hsplit hpayload (tag_ne_nil message), hmessage, ok_bind, compareDigest_tag,
      if_pos (tag_isAscii message), ok_bind, beq_self_eq_true, ensure, if_pos rfl, ok_bind]
    unfold decodePayload b64urlDecode
    rw [Base64.decode_encode, ← hbytes]
    dsimp only
    rw [loads_payloadJson]
    dsimp only
    rw [textMember_eq_ok.mpr ⟨rfl, joinPairs_ne_nil hflow⟩,
      textMember_eq_ok.mpr ⟨rfl, joinPairs_ne_nil horigin⟩]
    rfl

/-! ## The envelope -/

/-- An envelope is read back exactly if no surrogates in it spell a pair. -/
theorem roundTrip_iff {flowId origin : PyString} (hflow : flowId ≠ []) (horigin : origin ≠ []) :
    (∃ state, encode signer flowId origin = .ok state ∧
      decode signer state = .ok ⟨flowId, origin⟩) ↔
      hasPair flowId = false ∧ hasPair origin = false := by
  obtain ⟨state, hencode, hdecode⟩ : ∃ state, encode signer flowId origin = .ok state ∧ _ :=
    decode_encode hflow horigin
  rw [← joinPairs_eq_self_iff, ← joinPairs_eq_self_iff]
  constructor
  · rintro ⟨other, hother, hback⟩
    obtain rfl := Except.ok.inj (hencode.symm.trans hother)
    exact DecodedState.mk.inj (Except.ok.inj (hdecode.symm.trans hback))
  · rintro ⟨hflowId, horiginal⟩
    rw [hflowId, horiginal] at hdecode
    exact ⟨state, hencode, hdecode⟩

/-- The envelope of a flow is read back exactly if its texts spell no pair by surrogates; any state
is answered with a verified pair or refused exactly if it is readable. -/
theorem envelope_iff (signer : Signer) :
    (∀ flowId origin : PyString, flowId ≠ [] → origin ≠ [] →
      ((∃ state, encode signer flowId origin = .ok state ∧
        decode signer state = .ok ⟨flowId, origin⟩) ↔
        hasPair flowId = false ∧ hasPair origin = false)) ∧
      ∀ state, Answered signer state ↔ Readable signer state :=
  ⟨fun _ _ hflow horigin => roundTrip_iff hflow horigin, fun _ => answered_iff⟩

/-- A deployment whose tags are all zeros. -/
def zeroSigner : Signer := ⟨[1], fun _ _ => Vector.replicate 32 0, 0⟩

theorem envelope_zeroSigner : ∃ state,
    encode zeroSigner (pyString "flow-1") (pyString "https://a.example") = .ok state ∧
      decode zeroSigner state = .ok ⟨pyString "flow-1", pyString "https://a.example"⟩ :=
  ((envelope_iff zeroSigner).1 (pyString "flow-1") (pyString "https://a.example") (by decide)
    (by decide)).mpr (by decide)

/-- A payload that is not ASCII, a tag that is not, and a payload of nested arrays under its own
tag raise what is no `StateInvalidError`; and a pair of surrogates comes back as one character. -/
theorem not_answered_states :
    decode zeroSigner (pyString "é.00") = .error .unicodeEncodeError ∧
      decode zeroSigner (pyString "YQ.é") = .error .typeError ∧
      decode zeroSigner (pyString "W1s" ++ codePoint '.' :: zeroSigner.tag []) =
        .error .recursionError ∧
      ∃ state, encode zeroSigner [0xD83D, 0xDE00] (pyString "https://a.example") = .ok state ∧
        decode zeroSigner state = .ok ⟨[0x1F600], pyString "https://a.example"⟩ := by
  refine ⟨by decide +kernel, by decide +kernel, by decide +kernel, _, rfl, by decide +kernel⟩

end TaiSkeleton.Connectors.OAuth
