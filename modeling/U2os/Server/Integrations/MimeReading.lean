import U2os.Lib.Fallible
import U2os.Server.Integrations.Mime

/-!
# What a composed message says

A message that is accepted, read as a message, has the fields that are written and no others, the
body as its text and the attachments with their names and bytes.  Its recipients are separate
mailboxes where each of them is one by itself, and its subject is the one that was given where no
word of it has the form of an encoded word or the whole of it is encoded.

Neither the recipients nor a subject that is plain are taken apart by the code: a recipient with a
comma outside of quotes is read as two, and an encoded word of a subject is decoded.
-/

namespace U2os.Server.Integrations.Mime

open Mail Fallible List

section

variable {random : List UInt8} {mail : MailArguments} {raw : String}

theorem assertNoHeaderInjection_ok {value fieldName : String} {u : Unit} :
    assertNoHeaderInjection value fieldName = .ok u ↔ hasLineBreak value = false := by
  unfold assertNoHeaderInjection
  split_ifs with h <;> simp [h]

/-- The text of a message, if its attachments have safe names. -/
def messageOf (random : List UInt8) (toHeader subject body : String) (mail : MailArguments) :
    Except String String :=
  match mail.attachments with
  | none => .ok ("\r\n".intercalate (["To: " ++ toHeader] ++ bccLines mail.bcc ++
      ["Subject: " ++ subject, "", body]))
  | some attachments => buildMultipart random toHeader mail.bcc subject body attachments

/-- All it takes for a message to be built. -/
theorem buildRawMessage_ok (h : buildRawMessage random mail = .ok raw) :
    ∃ toList subject body message, recipients? mail.to = some toList ∧ mail.subject = .str subject ∧
      mail.body = .str body ∧ (∀ addr ∈ toList, hasLineBreak addr = false) ∧
      hasLineBreak subject = false ∧ hasLineBreak (mail.bcc.getD "") = false ∧
      messageOf random (", ".intercalate toList) subject body mail = .ok message ∧
      raw = rawOf message := by
  unfold buildRawMessage at h
  split at h
  next => cases h
  next toList hto =>
    split at h
    next subject body hsubject hbody =>
      obtain ⟨_, haddr, h⟩ := bind_eq_ok.1 h
      obtain ⟨_, hsub, h⟩ := bind_eq_ok.1 h
      obtain ⟨_, hbcc, h⟩ := bind_eq_ok.1 h
      have haddr := fun a ha => assertNoHeaderInjection_ok.1 (forM_eq_ok.1 haddr a ha)
      refine match hatt : mail.attachments with
        | some [] => ?_
        | some (item :: items) => ?_
        | none => ?_
      · rw [hatt] at h
        cases h
      · rw [hatt] at h
        obtain ⟨message, hmessage, rfl⟩ := map_eq_ok.1 h
        refine ⟨toList, subject, body, message, hto, hsubject, hbody, haddr,
          assertNoHeaderInjection_ok.1 hsub, assertNoHeaderInjection_ok.1 hbcc, ?_, rfl⟩
        rw [messageOf, hatt]
        exact hmessage
      · rw [hatt] at h
        obtain rfl := Except.ok.inj h
        refine ⟨toList, subject, body, _, hto, hsubject, hbody, haddr,
          assertNoHeaderInjection_ok.1 hsub, assertNoHeaderInjection_ok.1 hbcc, ?_, rfl⟩
        rw [messageOf, hatt]
    next => cases h

end

theorem unbroken_of_hasLineBreak {s : String} (h : hasLineBreak s = false) : Unbroken s.toList := by
  intro c hc hbreak
  have hno := any_eq_false.1 h c hc
  simp [hbreak] at hno

theorem unbroken_append {a b : Text} (ha : Unbroken a) (hb : Unbroken b) : Unbroken (a ++ b) :=
  fun c hc => (List.mem_append.1 hc).elim (ha c) (hb c)

theorem unbroken_intercalate {strs : List String} (h : ∀ s ∈ strs, Unbroken s.toList) :
    Unbroken (", ".intercalate strs).toList := by
  rw [String.toList_intercalate]
  induction strs with
  | nil => exact nofun
  | cons s strs ih =>
    rw [forall_mem_cons] at h
    cases strs with
    | nil => simpa using h.1
    | cons s' strs =>
      have hsep : Unbroken ", ".toList := by unfold Unbroken; decide
      rw [map_cons, map_cons, intercalate_cons_cons]
      exact unbroken_append (unbroken_append h.1 hsep) (ih h.2)

theorem mem_hexDigit (n : ℕ) : hexDigit n ∈ "0123456789abcdef".toList := by
  by_cases hn : n < 16
  · interval_cases n <;> decide
  · rw [hexDigit, getD_eq_getElem?_getD, getElem?_eq_none (Nat.not_lt.1 hn)]
    decide

/-- A character of a boundary or of the name of an attachment. -/
def IsInner (c : Char) : Prop := ¬(c = '\r' ∨ c = '\n') ∧ c ≠ '"' ∧ c ≠ '\\'

instance (c : Char) : Decidable (IsInner c) := inferInstanceAs (Decidable (_ ∧ _))

theorem isInner_boundary (random : List UInt8) : ∀ c ∈ (boundaryOf random).toList, IsInner c := by
  have hhex : ∀ n, IsInner (hexDigit n) := fun n =>
    (by decide : ∀ c ∈ "0123456789abcdef".toList, IsInner c) _ (mem_hexDigit n)
  intro c hc
  simp only [boundaryOf, hex, String.toList_append, String.toList_ofList] at hc
  rcases List.mem_append.1 hc with hc | hc
  · exact (by decide : ∀ c ∈ "u2os-".toList, IsInner c) c hc
  · obtain ⟨b, -, hc⟩ := mem_flatMap.1 hc
    simp only [mem_cons, not_mem_nil, or_false] at hc
    obtain rfl | rfl := hc
    · exact hhex _
    · exact hhex _

theorem isInner_filename {name : String} (h : isSafeFilename name = true) :
    ∀ c ∈ name.toList, IsInner c := by
  intro c hc
  have hall := all_eq_true.1 (Bool.and_eq_true_iff.1 h).2 c hc
  refine ⟨?_, ?_, ?_⟩
  · rintro (rfl | rfl)
    · exact absurd hall (by decide)
    · exact absurd hall (by decide)
  · rintro rfl
    exact absurd hall (by decide)
  · rintro rfl
    exact absurd hall (by decide)

theorem unbroken_type {type : String} (h : isSafeType type = true) : Unbroken type.toList := by
  rintro c hc (rfl | rfl)
  · exact absurd (all_eq_true.1 h _ hc) (by decide)
  · exact absurd (all_eq_true.1 h _ hc) (by decide)

theorem toList_encodeHeaderValue (value : String) : (encodeHeaderValue value).toList =
    if value.toList.all isPrintable = true then value.toList else encodeWord value.toList := by
  unfold encodeHeaderValue
  split_ifs
  · rfl
  · simp [encodeWord, utf8]

theorem unbroken_encodeHeaderValue {value : String} (h : hasLineBreak value = false) :
    Unbroken (encodeHeaderValue value).toList := by
  rw [toList_encodeHeaderValue]
  split_ifs
  · exact unbroken_of_hasLineBreak h
  · exact unbroken_encodeWord _

theorem flatten_lines_wrapFrom {room : ℕ} {cs : List Char} (h : Unbroken cs) :
    (lines (wrapFrom room cs)).flatten = cs := by
  fun_induction wrapFrom room cs with
  | case1 => rfl
  | case2 c cs ih =>
    have hc := h c mem_cons_self
    rw [lines, flatten_cons, nil_append, flatten_lines_cons hc,
      ih fun d hd => h d (mem_cons_of_mem _ hd)]
  | case3 room c cs ih =>
    have hc := h c mem_cons_self
    rw [flatten_lines_cons hc, ih fun d hd => h d (mem_cons_of_mem _ hd)]

/-- The lines of a wrapped text. -/
def wrapped (base64 : List Char) : List Text := lines (wrap base64).toList

theorem unbroken_encodePadded (bs : List UInt8) : Unbroken (Base64.encodePadded bs) :=
  Base64.forall_encodePadded (p := fun c => ¬(c = '\r' ∨ c = '\n')) (by decide)

theorem flatten_wrapped (bs : List UInt8) :
    (wrapped (Base64.encodePadded bs)).flatten = Base64.encodePadded bs := by
  rw [wrapped, wrap, String.toList_ofList, flatten_lines_wrapFrom (unbroken_encodePadded bs)]

variable {bs : List UInt8}

theorem head?_wrapped :
    ∀ l ∈ wrapped (Base64.encodePadded bs), l.head? ≠ some '-' := by
  intro l hl hhead
  have hmem : '-' ∈ Base64.encodePadded bs := by
    rw [← flatten_wrapped]
    exact mem_flatten_of_mem hl (mem_of_head? hhead)
  exact Base64.forall_encodePadded (p := (· ≠ '-')) (by decide) _ hmem rfl

/-! ### Fields -/

/-- The field of the copy, if there is one. -/
def copyFields : Option String → List (Text × Text)
  | some address => if address ≠ "" then [("Bcc".toList, address.toList)] else []
  | none => []

/-- The fields of every message. -/
def addressFields (toHeader : String) (bcc : Option String) (subject : String) :
    List (Text × Text) :=
  ("To".toList, toHeader.toList) :: (copyFields bcc ++ [("Subject".toList, subject.toList)])

/-- The fields that a message with attachments has besides. -/
def multipartFields (boundary : String) : List (Text × Text) :=
  [("MIME-Version".toList, "1.0".toList),
    ("Content-Type".toList, withParam "multipart/mixed".toList "boundary".toList boundary.toList)]

/-- The names of the fields of every message, in small letters. -/
def addressNames : List Text := ["to".toList, "bcc".toList, "subject".toList]

variable {name value : Text} {attachments : List Attachment}

variable {body : String}

section

variable {toHeader subject boundary : String} {bcc : Option String} {rest : List (Text × Text)}

theorem mem_copyFields {f : Text × Text} (h : f ∈ copyFields bcc) :
    f = ("Bcc".toList, (bcc.getD "").toList) := by
  unfold copyFields at h
  split at h
  · split_ifs at h with hne
    · exact mem_singleton.1 h
    · exact absurd h not_mem_nil
  · exact absurd h not_mem_nil

theorem mem_addressFields {f : Text × Text} (h : f ∈ addressFields toHeader bcc subject) :
    f = ("To".toList, toHeader.toList) ∨ f = ("Bcc".toList, (bcc.getD "").toList) ∨
      f = ("Subject".toList, subject.toList) := by
  rcases mem_cons.1 h with h | h
  · exact .inl h
  rcases List.mem_append.1 h with h | h
  · exact .inr (.inl (mem_copyFields h))
  · exact .inr (.inr (mem_singleton.1 h))

theorem isName_addressFields : ∀ f ∈ addressFields toHeader bcc subject, IsName f.1 := by
  intro f hf
  obtain rfl | rfl | rfl := mem_addressFields hf
  · exact (by decide : IsName "To".toList)
  · exact (by decide : IsName "Bcc".toList)
  · exact (by decide : IsName "Subject".toList)

theorem lower_addressFields :
    ∀ f ∈ addressFields toHeader bcc subject, lower f.1 ∈ addressNames := by
  intro f hf
  obtain rfl | rfl | rfl := mem_addressFields hf
  · exact (by decide : lower "To".toList ∈ addressNames)
  · exact (by decide : lower "Bcc".toList ∈ addressNames)
  · exact (by decide : lower "Subject".toList ∈ addressNames)

theorem find?_addressFields (h : name ∉ addressNames) :
    (addressFields toHeader bcc subject ++ rest).find? (fun f => lower f.1 = name) =
      rest.find? fun f => lower f.1 = name := by
  have hnone : (addressFields toHeader bcc subject).find? (fun f => lower f.1 = name) = none := by
    refine find?_eq_none.2 fun f hf => ?_
    rw [decide_eq_true_eq]
    exact fun hname => h (hname ▸ lower_addressFields f hf)
  rw [find?_append, hnone, Option.none_or]

theorem lines_field {s : String} (hs : s.toList = fieldLine name value)
    (hn : IsName name) (hv : Unbroken value) : lines s.toList = [fieldLine name value] := by
  rw [hs, lines_unbroken (unbroken_fieldLine hn hv)]

/-- The lines of the address fields are these fields. -/
theorem lines_addressFields (ht : Unbroken toHeader.toList)
    (hb : hasLineBreak (bcc.getD "") = false) (hs : Unbroken subject.toList) :
    (["To: " ++ toHeader] ++ bccLines bcc ++ ["Subject: " ++ subject]).flatMap
        (fun s => lines s.toList) =
      (addressFields toHeader bcc subject).map fun f => fieldLine f.1 f.2 := by
  have hto : lines ("To: " ++ toHeader).toList = [fieldLine "To".toList toHeader.toList] :=
    lines_field (by simp [fieldLine]) (by decide) ht
  have hsubject : lines ("Subject: " ++ subject).toList =
      [fieldLine "Subject".toList subject.toList] :=
    lines_field (by simp [fieldLine]) (by decide) hs
  have hcopy : (bccLines bcc).flatMap (fun s => lines s.toList) =
      (copyFields bcc).map fun f => fieldLine f.1 f.2 := by
    cases bcc with
    | none => rfl
    | some address =>
      have haddress : lines ("Bcc: " ++ address).toList =
          [fieldLine "Bcc".toList address.toList] :=
        lines_field (by simp [fieldLine]) (by decide) (unbroken_of_hasLineBreak hb)
      unfold bccLines copyFields
      dsimp only
      split_ifs
      · rw [flatMap_singleton, haddress]
        rfl
      · rfl
  rw [flatMap_append, flatMap_append, hcopy, flatMap_singleton,
    flatMap_singleton, hto, hsubject, addressFields, map_cons, map_append]
  rfl

theorem lines_intercalate {strs : List String} (hne : strs ≠ []) :
    lines ("\r\n".intercalate strs).toList = strs.flatMap fun s => lines s.toList := by
  have hjoin : ("\r\n".intercalate strs).toList = joinLines (strs.map String.toList) := by
    rw [String.toList_intercalate, joinLines]
    rfl
  rw [hjoin, lines_joinLines (by simpa using hne), flatMap_map]

/-- A message without attachments is read with its fields and its text. -/
theorem read_plain (ht : Unbroken toHeader.toList)
    (hb : hasLineBreak (bcc.getD "") = false) (hs : Unbroken subject.toList) :
    read (lines ("\r\n".intercalate (["To: " ++ toHeader] ++ bccLines bcc ++
        ["Subject: " ++ subject, "", body])).toList) =
      some ⟨addressFields toHeader bcc subject, [lines body.toList], []⟩ := by
  have hlines : lines ("\r\n".intercalate (["To: " ++ toHeader] ++ bccLines bcc ++
      ["Subject: " ++ subject, "", body])).toList =
      Entity.toLines ⟨addressFields toHeader bcc subject, lines body.toList⟩ := by
    have happ : ["To: " ++ toHeader] ++ bccLines bcc ++ ["Subject: " ++ subject, "", body] =
        (["To: " ++ toHeader] ++ bccLines bcc ++ ["Subject: " ++ subject]) ++ ["", body] := by simp
    rw [lines_intercalate (by simp), happ, flatMap_append, lines_addressFields ht hb hs]
    simp [Entity.toLines, lines]
  have hfind : ∀ name : String, name.toList ∉ addressNames →
      Entity.field? ⟨addressFields toHeader bcc subject, lines body.toList⟩ name = none := by
    intro name hname
    have hnone : (addressFields toHeader bcc subject ++ []).find?
        (fun f : Text × Text => lower f.1 = name.toList) = none := find?_addressFields hname
    rw [append_nil] at hnone
    rw [Entity.field?, hnone]
    rfl
  rw [hlines]
  refine read_single isName_addressFields ?_ ?_
  · rw [Entity.boundary?, hfind "content-type" (by decide)]
    rfl
  · rw [Entity.text?, Entity.isBase64, hfind "content-transfer-encoding" (by decide)]
    rfl

/-! ### A message with attachments -/

def textPart (body : String) : Entity :=
  ⟨[("Content-Type".toList, "text/plain; charset=\"UTF-8\"".toList),
    ("Content-Transfer-Encoding".toList, "base64".toList)],
    wrapped (Base64.encodePadded (utf8 body))⟩

def attachmentPart (item : Attachment) : Entity :=
  ⟨[("Content-Type".toList,
      (item.contentType ++ "; name=\"" ++ item.filename ++ "\"").toList),
    ("Content-Disposition".toList,
      withParam "attachment".toList "filename".toList item.filename.toList),
    ("Content-Transfer-Encoding".toList, "base64".toList)],
    wrapped (Base64.encodePadded item.content)⟩

/-- The message. -/
def multipart (boundary toHeader : String) (bcc : Option String) (subject body : String)
    (attachments : List Attachment) : Entity :=
  ⟨addressFields toHeader bcc subject ++ multipartFields boundary,
    delimited boundary.toList ((textPart body :: attachments.map attachmentPart).map
      Entity.toLines)⟩

theorem named_textPart (body : String) : (textPart body).Named := by
  intro f hf
  simp only [textPart, mem_cons, not_mem_nil, or_false] at hf
  obtain rfl | rfl := hf
  · exact (by decide : IsName "Content-Type".toList)
  · exact (by decide : IsName "Content-Transfer-Encoding".toList)

theorem named_attachmentPart (item : Attachment) : (attachmentPart item).Named := by
  intro f hf
  simp only [attachmentPart, mem_cons, not_mem_nil, or_false] at hf
  obtain rfl | rfl | rfl := hf
  · exact (by decide : IsName "Content-Type".toList)
  · exact (by decide : IsName "Content-Disposition".toList)
  · exact (by decide : IsName "Content-Transfer-Encoding".toList)

theorem bytes_of_base64 {e : Entity} (h : e.isBase64 = true)
    (hbody : e.body = wrapped (Base64.encodePadded bs)) : e.bytes = bs := by
  rw [Entity.bytes, if_pos h, hbody, flatten_wrapped, Base64.decode_encodePadded]

theorem isBase64_of_field {e : Entity}
    (h : e.field? "content-transfer-encoding" = some "base64".toList) : e.isBase64 = true := by
  rw [Entity.isBase64, h]
  decide

theorem text?_textPart (body : String) : (textPart body).text? = some (lines body.toList) := by
  have hbase : (textPart body).isBase64 = true := by
    refine isBase64_of_field ?_
    rw [textPart, Entity.field?_of_ne (by decide), Entity.field?_of_eq (by decide)]
  rw [Entity.text?, if_pos hbase, bytes_of_base64 hbase rfl, utf8, Utf8.decode_bytes]
  rfl

theorem attachment?_textPart (body : String) : (textPart body).attachment? = none := by
  rw [Entity.attachment?, textPart, Entity.field?_of_ne (by decide),
    Entity.field?_of_ne (by decide)]
  rfl

theorem attachment?_attachmentPart {item : Attachment}
    (h : isSafeFilename item.filename = true) :
    (attachmentPart item).attachment? = some (item.filename.toList, item.content) := by
  have hbase : (attachmentPart item).isBase64 = true := by
    refine isBase64_of_field ?_
    rw [attachmentPart, Entity.field?_of_ne (by decide), Entity.field?_of_ne (by decide),
      Entity.field?_of_eq (by decide)]
  have hfield : (attachmentPart item).field? "content-disposition" =
      some (withParam "attachment".toList "filename".toList item.filename.toList) := by
    rw [attachmentPart, Entity.field?_of_ne (by decide), Entity.field?_of_eq (by decide)]
  have hkind : kind (withParam "attachment".toList "filename".toList item.filename.toList) =
      "attachment".toList := by
    rw [kind_withParam (by decide)]
    decide
  have hparam : param? "filename".toList
      (withParam "attachment".toList "filename".toList item.filename.toList) =
        some item.filename.toList :=
    param?_withParam (by decide) (by unfold IsParamName; decide) fun c hc =>
      (isInner_filename h c hc).2
  rw [Entity.attachment?, hfield, Option.filter_some, hkind, if_pos (by decide), Option.map_some,
    hparam, bytes_of_base64 hbase rfl]
  rfl

theorem not_dash_fieldLine (h : name.head? ≠ some '-') (hne : name ≠ []) :
    (fieldLine name value).head? ≠ some '-' := by
  obtain ⟨c, cs, rfl⟩ := exists_cons_of_ne_nil hne
  exact h

theorem not_dash_toLines {e : Entity} (hfields : ∀ f ∈ e.fields, f.1.head? = some 'C')
    (hbody : e.body = wrapped (Base64.encodePadded bs)) :
    ∀ l ∈ e.toLines, l.head? ≠ some '-' := by
  intro l hl
  rcases List.mem_append.1 hl with hl | hl
  · obtain ⟨f, hf, rfl⟩ := mem_map.1 hl
    have hhead := hfields f hf
    refine not_dash_fieldLine (by rw [hhead]; decide) ?_
    rintro hnil
    rw [hnil] at hhead
    cases hhead
  · rcases mem_cons.1 hl with rfl | hl
    · exact nofun
    · exact head?_wrapped l (hbody ▸ hl)

theorem boundary?_multipart {random : List UInt8} :
    (multipart (boundaryOf random) toHeader bcc subject body attachments).boundary? =
      some (boundaryOf random).toList := by
  have hfield : (multipart (boundaryOf random) toHeader bcc subject body attachments).field?
      "content-type" = some (withParam "multipart/mixed".toList "boundary".toList
        (boundaryOf random).toList) := by
    rw [Entity.field?, multipart, find?_addressFields (by decide)]
    change Entity.field? ⟨multipartFields (boundaryOf random), []⟩ "content-type" = _
    rw [multipartFields, Entity.field?_of_ne (by decide), Entity.field?_of_eq (by decide)]
  have hkind : kind (withParam "multipart/mixed".toList "boundary".toList
      (boundaryOf random).toList) = "multipart/mixed".toList := by
    rw [kind_withParam (by decide)]
    decide
  rw [Entity.boundary?, hfield, Option.filter_some, hkind, if_pos (by decide), Option.bind_some,
    param?_withParam (by decide) (by unfold IsParamName; decide) fun c hc =>
      (isInner_boundary random c hc).2]

/-- A message with attachments is read with its fields and its parts. -/
theorem read_multipart_entity {random : List UInt8}
    (hsafe : ∀ item ∈ attachments, isSafeFilename item.filename = true) :
    read (multipart (boundaryOf random) toHeader bcc subject body attachments).toLines =
      some ⟨addressFields toHeader bcc subject ++ multipartFields (boundaryOf random),
        [lines body.toList], attachments.map fun a => (a.filename.toList, a.content)⟩ := by
  refine Mail.read_multipart (fun f hf => ?_) boundary?_multipart rfl (fun p hp => ?_)
    (fun p hp => ?_) (attachment?_textPart body) (text?_textPart body)
    fun item hitem => attachment?_attachmentPart (hsafe item hitem)
  · rcases List.mem_append.1 hf with hf | hf
    · exact isName_addressFields f hf
    · simp only [multipartFields, mem_cons, not_mem_nil, or_false] at hf
      obtain rfl | rfl := hf
      · exact (by decide : IsName "MIME-Version".toList)
      · exact (by decide : IsName "Content-Type".toList)
  · rcases mem_cons.1 hp with rfl | hp
    · exact named_textPart body
    · obtain ⟨item, -, rfl⟩ := mem_map.1 hp
      exact named_attachmentPart item
  · rcases mem_cons.1 hp with rfl | hp
    · refine not_dash_toLines (fun f hf => ?_) rfl
      simp only [textPart, mem_cons, not_mem_nil, or_false] at hf
      obtain rfl | rfl := hf <;> rfl
    · obtain ⟨item, -, rfl⟩ := mem_map.1 hp
      refine not_dash_toLines (fun f hf => ?_) rfl
      simp only [attachmentPart, mem_cons, not_mem_nil, or_false] at hf
      obtain rfl | rfl | rfl := hf <;> rfl

theorem unbroken_boundary (random : List UInt8) : Unbroken (boundaryOf random).toList :=
  fun c hc => (isInner_boundary random c hc).1

theorem lines_delimiter (random : List UInt8) :
    lines ("--" ++ boundaryOf random).toList = [delimiter (boundaryOf random).toList] := by
  have hdash : Unbroken ['-', '-'] := by unfold Unbroken; decide
  have heq : ("--" ++ boundaryOf random).toList = ['-', '-'] ++ (boundaryOf random).toList := by
    simp
  rw [heq, lines_unbroken (unbroken_append hdash (unbroken_boundary random))]
  rfl

theorem lines_closing (random : List UInt8) :
    lines ("--" ++ boundaryOf random ++ "--").toList = [closing (boundaryOf random).toList] := by
  have hdash : Unbroken ['-', '-'] := by unfold Unbroken; decide
  have heq : ("--" ++ boundaryOf random ++ "--").toList =
      ['-', '-'] ++ (boundaryOf random).toList ++ ['-', '-'] := by simp
  rw [heq, lines_unbroken (unbroken_append
    (unbroken_append hdash (unbroken_boundary random)) hdash)]
  rfl

theorem unbroken_withParam {head : Text} (hh : Unbroken head) (hn : Unbroken name)
    (hv : Unbroken value) : Unbroken (withParam head name value) := by
  have hsep : Unbroken [';', ' '] := by unfold Unbroken; decide
  have heq : Unbroken ['=', '"'] := by unfold Unbroken; decide
  have hquote : Unbroken ['"'] := by unfold Unbroken; decide
  exact unbroken_append hh (unbroken_append hsep (unbroken_append hn
    (unbroken_append heq (unbroken_append hv hquote))))

theorem lines_attachmentLines {random : List UInt8} {item : Attachment}
    (hname : isSafeFilename item.filename = true) (htype : isSafeType item.contentType = true) :
    (attachmentLines (boundaryOf random) item).flatMap (fun s => lines s.toList) =
      delimiter (boundaryOf random).toList :: (attachmentPart item).toLines := by
  have hfile : Unbroken item.filename.toList := fun c hc => (isInner_filename hname c hc).1
  have hname' : Unbroken "; name=\"".toList := by unfold Unbroken; decide
  have hquote : Unbroken "\"".toList := by unfold Unbroken; decide
  have htypeLine : lines ("Content-Type: " ++ item.contentType ++ "; name=\"" ++ item.filename ++
      "\"").toList = [fieldLine "Content-Type".toList
        (item.contentType ++ "; name=\"" ++ item.filename ++ "\"").toList] := by
    refine lines_field (by simp [fieldLine]) (by decide) ?_
    simp only [String.toList_append]
    exact unbroken_append (unbroken_append (unbroken_append (unbroken_type htype) hname') hfile)
      hquote
  have hdisposition : lines ("Content-Disposition: attachment; filename=\"" ++ item.filename ++
      "\"").toList = [fieldLine "Content-Disposition".toList
        (withParam "attachment".toList "filename".toList item.filename.toList)] := by
    refine lines_field (by simp [fieldLine, withParam]) (by decide) ?_
    exact unbroken_withParam (by unfold Unbroken; decide) (by unfold Unbroken; decide) hfile
  have hencoding : lines "Content-Transfer-Encoding: base64".toList =
      [fieldLine "Content-Transfer-Encoding".toList "base64".toList] :=
    lines_field (by simp [fieldLine]) (by decide) (by unfold Unbroken; decide)
  rw [attachmentLines]
  simp only [flatMap_cons, flatMap_nil]
  rw [lines_delimiter, htypeLine, hdisposition, hencoding]
  simp [Entity.toLines, attachmentPart, wrapped, lines]

/-- The lines of a message with attachments are those of its parts. -/
theorem lines_multipart {random : List UInt8} {message : String} (ht : Unbroken toHeader.toList)
    (hb : hasLineBreak (bcc.getD "") = false) (hs : hasLineBreak subject = false)
    (h : buildMultipart random toHeader bcc subject body attachments = .ok message) :
    (∀ item ∈ attachments, isSafeFilename item.filename = true) ∧
    lines message.toList = (multipart (boundaryOf random) toHeader bcc (encodeHeaderValue subject)
      body attachments).toLines := by
  unfold buildMultipart at h
  dsimp only at h
  split_ifs at h with hall
  obtain rfl := Except.ok.inj h
  have hsafe : ∀ item ∈ attachments,
      isSafeFilename item.filename = true ∧ isSafeType item.contentType = true := fun item hitem =>
    Bool.and_eq_true_iff.1 (all_eq_true.1 hall item hitem)
  refine ⟨fun item hitem => (hsafe item hitem).1, ?_⟩
  have hattachments : (attachments.flatMap (attachmentLines (boundaryOf random))).flatMap
      (fun s => lines s.toList) = attachments.flatMap fun item =>
        delimiter (boundaryOf random).toList :: (attachmentPart item).toLines := by
    rw [flatMap_assoc]
    exact flatMap_congr fun item hitem =>
      lines_attachmentLines (hsafe item hitem).1 (hsafe item hitem).2
  have hversion : lines "MIME-Version: 1.0".toList =
      [fieldLine "MIME-Version".toList "1.0".toList] :=
    lines_field (by simp [fieldLine]) (by decide) (by unfold Unbroken; decide)
  have htypeLine : lines ("Content-Type: multipart/mixed; boundary=\"" ++ boundaryOf random ++
      "\"").toList = [fieldLine "Content-Type".toList
        (withParam "multipart/mixed".toList "boundary".toList (boundaryOf random).toList)] := by
    refine lines_field (by simp [fieldLine, withParam]) (by decide) ?_
    exact unbroken_withParam (by unfold Unbroken; decide) (by unfold Unbroken; decide)
      (unbroken_boundary random)
  have htextLine : lines "Content-Type: text/plain; charset=\"UTF-8\"".toList =
      [fieldLine "Content-Type".toList "text/plain; charset=\"UTF-8\"".toList] :=
    lines_field (by simp [fieldLine]) (by decide) (by unfold Unbroken; decide)
  have hencoding : lines "Content-Transfer-Encoding: base64".toList =
      [fieldLine "Content-Transfer-Encoding".toList "base64".toList] :=
    lines_field (by simp [fieldLine]) (by decide) (by unfold Unbroken; decide)
  have haddress := lines_addressFields ht hb (unbroken_encodeHeaderValue hs)
  have happ : ∀ (a b c d : List String) (s : String),
      a ++ s :: b ++ c ++ d = a ++ [s] ++ (b ++ (c ++ d)) := fun a b c d s => by simp
  rw [lines_intercalate (by simp), happ, flatMap_append, haddress]
  simp only [flatMap_cons, flatMap_nil, flatMap_append, cons_append,
    nil_append]
  rw [hversion, htypeLine, lines_delimiter, htextLine, hencoding, hattachments, lines_closing]
  simp [multipart, multipartFields, Entity.toLines, textPart, delimited, wrapped, lines,
    flatMap_map]

/-! ### What is read -/

theorem lower_multipartFields : ∀ f ∈ multipartFields boundary, lower f.1 ∉ addressNames := by
  intro f hf
  simp only [multipartFields, mem_cons, not_mem_nil, or_false] at hf
  obtain rfl | rfl := hf
  · exact (by decide : lower "MIME-Version".toList ∉ addressNames)
  · exact (by decide : lower "Content-Type".toList ∉ addressNames)

theorem values_addressFields {texts : List (List Text)} {name : String}
    {attachments : List (Text × List UInt8)} (hname : name.toList ∈ addressNames)
    (hrest : ∀ f ∈ rest, lower f.1 ∉ addressNames) :
    Message.values ⟨addressFields toHeader bcc subject ++ rest, texts, attachments⟩ name =
      ((addressFields toHeader bcc subject).filter fun f => lower f.1 = name.toList).map
        Prod.snd := by
  have hnone : rest.filter (fun f => lower f.1 = name.toList) = [] := by
    refine filter_eq_nil_iff.2 fun f hf => ?_
    rw [decide_eq_true_eq]
    exact fun heq => hrest f hf (heq ▸ hname)
  rw [Message.values, filter_append, hnone, append_nil]

theorem filter_copyFields_eq_nil (h : "bcc".toList ≠ name) :
    (copyFields bcc).filter (fun f => lower f.1 = name) = [] := by
  refine filter_eq_nil_iff.2 fun f hf => ?_
  rw [mem_copyFields hf, decide_eq_true_eq]
  exact fun hname => h (((by decide : "bcc".toList = lower "Bcc".toList)).trans hname)

theorem filter_copyFields :
    (copyFields bcc).filter (fun f => lower f.1 = "bcc".toList) = copyFields bcc := by
  refine filter_eq_self.2 fun f hf => ?_
  rw [mem_copyFields hf, decide_eq_true_eq]
  exact (by decide : lower "Bcc".toList = "bcc".toList)

theorem filter_to : (addressFields toHeader bcc subject).filter
    (fun f => lower f.1 = "to".toList) = [("To".toList, toHeader.toList)] := by
  rw [addressFields, filter_field_of_eq (by decide), filter_append,
    filter_copyFields_eq_nil (by decide), filter_field_of_ne (by decide)]
  rfl

theorem filter_bcc : (addressFields toHeader bcc subject).filter
    (fun f => lower f.1 = "bcc".toList) = copyFields bcc := by
  rw [addressFields, filter_field_of_ne (by decide), filter_append, filter_copyFields,
    filter_field_of_ne (by decide), filter_nil, append_nil]

theorem filter_subject : (addressFields toHeader bcc subject).filter
    (fun f => lower f.1 = "subject".toList) = [("Subject".toList, subject.toList)] := by
  rw [addressFields, filter_field_of_ne (by decide), filter_append,
    filter_copyFields_eq_nil (by decide), filter_field_of_eq (by decide)]
  rfl

end

/-- What a message in base64 for URLs says. -/
def readRaw (raw : String) : Option Message :=
  (Utf8.decode (Base64.decode .url raw.toList)).bind fun text => read (lines text)

theorem readRaw_rawOf (message : String) :
    readRaw (rawOf message) = read (lines message.toList) := by
  rw [readRaw, rawOf, String.toList_ofList, Base64.decode_encode, utf8, Utf8.decode_bytes]
  rfl

/-- The addresses that get a copy. -/
def copiesOf (mail : MailArguments) : List String :=
  match mail.bcc with
  | some address => if address ≠ "" then [address] else []
  | none => []

/-- The names of the fields that are written. -/
def fieldNames (mail : MailArguments) : List Text :=
  "To".toList :: ((copiesOf mail).map (fun _ => "Bcc".toList) ++ "Subject".toList ::
    if mail.attachments.isSome then ["MIME-Version".toList, "Content-Type".toList] else [])

/-- The subject is encoded as a whole, or no word of it has the form of an encoded word. -/
def SubjectReads (mail : MailArguments) (subject : String) : Prop :=
  (mail.attachments.isSome = true ∧ subject.toList.all isPrintable = false) ∨
    PlainWords subject.toList

instance (mail : MailArguments) (subject : String) : Decidable (SubjectReads mail subject) :=
  inferInstanceAs (Decidable (_ ∨ _))

section

variable {random : List UInt8} {mail : MailArguments} {raw : String}
  {other : Text → Text → Text → Option Text}

theorem recipients?_ne_nil {v : ParsedJson} {toList : List String}
    (h : recipients? v = some toList) : toList ≠ [] := by
  rintro rfl
  unfold recipients? at h
  split at h
  · split_ifs at h with hne
    obtain ⟨v, vs, rfl⟩ := exists_cons_of_ne_nil hne
    rw [mapM_cons] at h
    cases hv : recipient? v with
    | none => rw [hv] at h; cases h
    | some s =>
      rw [hv] at h
      cases hvs : vs.mapM recipient? with
      | none => rw [hvs] at h; cases h
      | some ss => rw [hvs] at h; cases h
  · obtain ⟨s, -, hs⟩ := Option.map_eq_some_iff.1 h
    cases hs

theorem copyFields_eq (mail : MailArguments) :
    copyFields mail.bcc = (copiesOf mail).map fun r => ("Bcc".toList, r.toList) := by
  unfold copyFields copiesOf
  split
  · split_ifs <;> rfl
  · rfl

theorem names_eq {toHeader subject : String} {rest : List (Text × Text)}
    (hrest : rest.map Prod.fst =
      if mail.attachments.isSome then ["MIME-Version".toList, "Content-Type".toList] else []) :
    (addressFields toHeader mail.bcc subject ++ rest).map Prod.fst = fieldNames mail := by
  rw [addressFields, copyFields_eq, fieldNames, ← hrest]
  simp [Function.comp_def]

/-- The fields name the recipients and the subject. -/
theorem header_says {toList : List String} {shown : String} {rest : List (Text × Text)}
    {texts : List (List Text)} {attachments : List (Text × List UInt8)} (hne : toList ≠ [])
    (hrest : ∀ f ∈ rest, lower f.1 ∉ addressNames) :
    let m : Message :=
      ⟨addressFields (", ".intercalate toList) mail.bcc shown ++ rest, texts, attachments⟩
    ((∀ r ∈ toList, IsMailbox r.toList) →
      m.mailboxes "to" = some (toList.map fun r => trim r.toList)) ∧
    ((∀ r ∈ copiesOf mail, IsMailbox r.toList) →
      m.mailboxes "bcc" = some ((copiesOf mail).map fun r => trim r.toList)) ∧
    m.values "subject" = [shown.toList] := by
  refine ⟨fun hall => ?_, fun hall => ?_, ?_⟩
  · rw [Message.mailboxes, values_addressFields (by decide) hrest, filter_to,
      String.toList_intercalate]
    have hne : toList.map String.toList ≠ [] := by simpa using hne
    have hjoin := mailboxes_join hne fun r hr => by
      obtain ⟨s, hs, rfl⟩ := mem_map.1 hr
      exact hall s hs
    have hsep : ", ".toList = [',', ' '] := by decide
    rw [map_singleton, hsep, mapM_cons, hjoin]
    simp [Function.comp_def]
  · have hsome : (copiesOf mail).mapM (fun r => mailboxes r.toList) =
        some ((copiesOf mail).map fun r => [trim r.toList]) :=
      mapM_eq_some fun r hr => mailboxes_single (hall r hr)
    rw [Message.mailboxes, values_addressFields (by decide) hrest, filter_bcc, copyFields_eq,
      map_map, mapM_map]
    refine (congrArg (Option.map List.flatten) hsome).trans ?_
    rw [Option.map_some, ← flatMap_def]
    exact congrArg some (flatMap_pure_eq_map _ _)
  · rw [values_addressFields (by decide) hrest, filter_subject]
    rfl

/-- **A composed message says what was approved**: no fields but those that are written, the body as
its text and the attachments as they are; the recipients and the copy as mailboxes of their own,
where each of them is one by itself; and the subject, where it is encoded as a whole or has no
encoded words. -/
theorem message_says (h : buildRawMessage random mail = .ok raw) :
    ∃ toList subject body m, recipients? mail.to = some toList ∧ mail.subject = .str subject ∧
      mail.body = .str body ∧ readRaw raw = some m ∧
      m.fields.map Prod.fst = fieldNames mail ∧
      m.texts = [lines body.toList] ∧
      m.attachments = (mail.attachments.getD []).map (fun a => (a.filename.toList, a.content)) ∧
      ((∀ r ∈ toList, IsMailbox r.toList) →
        m.mailboxes "to" = some (toList.map fun r => trim r.toList)) ∧
      ((∀ r ∈ copiesOf mail, IsMailbox r.toList) →
        m.mailboxes "bcc" = some ((copiesOf mail).map fun r => trim r.toList)) ∧
      (SubjectReads mail subject →
        (m.values "subject").map (readWords other) = [subject.toList]) := by
  obtain ⟨toList, subject, body, message, hto, hsubject, hbody, haddr, hsub, hbcc, hmessage, rfl⟩ :=
    buildRawMessage_ok h
  have hne := recipients?_ne_nil hto
  have ht := unbroken_intercalate fun s hs => unbroken_of_hasLineBreak (haddr s hs)
  refine ⟨toList, subject, body, ?_⟩
  cases hatt : mail.attachments with
  | none =>
    rw [messageOf, hatt] at hmessage
    obtain rfl := Except.ok.inj hmessage
    have hread : readRaw (rawOf ("\r\n".intercalate (["To: " ++ ", ".intercalate toList] ++
        bccLines mail.bcc ++ ["Subject: " ++ subject, "", body]))) =
        some ⟨addressFields (", ".intercalate toList) mail.bcc subject ++ [],
          [lines body.toList], []⟩ := by
      rw [readRaw_rawOf, append_nil]
      exact read_plain ht hbcc (unbroken_of_hasLineBreak hsub)
    obtain ⟨hmailboxes, hcopies, hvalues⟩ := header_says hne (forall_mem_nil _)
    refine ⟨_, hto, hsubject, hbody, hread, names_eq (by rw [hatt]; rfl), rfl, rfl, hmailboxes,
      hcopies, fun hreads => ?_⟩
    rw [hvalues, map_singleton, readWords_of_plain]
    refine hreads.resolve_left fun hsome => ?_
    rw [hatt] at hsome
    exact absurd hsome.1 nofun
  | some attachments =>
    rw [messageOf, hatt] at hmessage
    obtain ⟨hsafe, hlines⟩ := lines_multipart ht hbcc hsub hmessage
    have hread : readRaw (rawOf message) =
        some ⟨addressFields (", ".intercalate toList) mail.bcc (encodeHeaderValue subject) ++
          multipartFields (boundaryOf random), [lines body.toList],
          attachments.map fun a => (a.filename.toList, a.content)⟩ := by
      rw [readRaw_rawOf, hlines]
      exact read_multipart_entity hsafe
    obtain ⟨hmailboxes, hcopies, hvalues⟩ := header_says hne lower_multipartFields
    refine ⟨_, hto, hsubject, hbody, hread, names_eq (by rw [hatt]; rfl), rfl, rfl, hmailboxes,
      hcopies, fun hreads => ?_⟩
    rw [hvalues, map_singleton, toList_encodeHeaderValue]
    split_ifs with hprintable
    · rw [readWords_of_plain]
      refine hreads.resolve_left fun hencoded => ?_
      rw [hprintable] at hencoded
      exact absurd hencoded.2 nofun
    · rw [readWords_encodeWord]

end

/-- A message whose only recipient has a comma and whose subject is an encoded word. -/
def sampleMail : MailArguments :=
  ⟨.str "a@x.test, b@x.test", none, .str "=?UTF-8?B?aGk=?=", .str "text", none⟩

/-- The message is accepted, and is read to have two recipients and another subject. -/
theorem sample_misread : ∃ raw, buildRawMessage [] sampleMail = .ok raw ∧
    recipients? sampleMail.to = some ["a@x.test, b@x.test"] ∧
    ∃ m, readRaw raw = some m ∧
      m.mailboxes "to" = some ["a@x.test".toList, "b@x.test".toList] ∧
      (m.values "subject").map (readWords fun _ _ _ => none) = ["hi".toList] := by
  refine ⟨rawOf ("\r\n".intercalate (["To: " ++ ", ".intercalate ["a@x.test, b@x.test"]] ++
    bccLines none ++ ["Subject: " ++ "=?UTF-8?B?aGk=?=", "", "text"])), by rfl, by rfl, _,
    (readRaw_rawOf _).trans (read_plain ?_ rfl ?_), by decide, ?_⟩
  · exact unbroken_of_hasLineBreak (by decide)
  · exact unbroken_of_hasLineBreak (by decide)
  · have hword : "=?UTF-8?B?aGk=?=".toList = encodeWord "hi".toList := by decide
    have hvalues : Message.values ⟨addressFields (", ".intercalate ["a@x.test, b@x.test"]) none
        "=?UTF-8?B?aGk=?=", [lines "text".toList], []⟩ "subject" = ["=?UTF-8?B?aGk=?=".toList] := by
      decide
    rw [hvalues, map_singleton, hword, readWords_encodeWord]

/-- A message with two recipients, a copy, a subject that is no ASCII and an attachment. -/
def sampleLetter : MailArguments :=
  ⟨.arr [.str "Ann <a@x.test>", .str "\"B, Bob\" <b@x.test>"], some "me@x.test",
    .str "=?UTF-8?B?aGk=?= é", .str "text",
    some [⟨"r.pdf", "application/pdf", [37, 80, 68, 70]⟩]⟩

theorem sample_says : ∃ raw m, readRaw raw = some m ∧ m.texts = [["text".toList]] ∧
    m.attachments = [("r.pdf".toList, [37, 80, 68, 70])] ∧
    m.mailboxes "to" = some ["Ann <a@x.test>".toList, "\"B, Bob\" <b@x.test>".toList] ∧
    (m.values "subject").map (readWords fun _ _ _ => none) = ["=?UTF-8?B?aGk=?= é".toList] := by
  obtain ⟨raw, hraw⟩ : ∃ raw, buildRawMessage [0, 255] sampleLetter = .ok raw := ⟨_, by rfl⟩
  obtain ⟨toList, subject, body, m, hto, hsubject, hbody, hread, -, htexts, hattachments,
    hmailboxes, -, hreads⟩ := message_says hraw
  obtain rfl := Option.some.inj (hto.symm.trans
    (by rfl : recipients? sampleLetter.to = some ["Ann <a@x.test>", "\"B, Bob\" <b@x.test>"]))
  obtain rfl := ParsedJson.str.inj hsubject
  obtain rfl := ParsedJson.str.inj hbody
  refine ⟨raw, m, hread, htexts, hattachments, ?_, ?_⟩
  · exact (hmailboxes (by decide)).trans (by decide)
  · exact hreads (by decide)

end U2os.Server.Integrations.Mime
