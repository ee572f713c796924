import Elpis.Inbound.Forgery

/-!
# Reading an envelope back

What `extractUtterance` and `parseEnvelope` make of the text of an envelope. Each structured
child is taken off whole, since its closing tag occurs nowhere inside it, and the attributes
before a wanted one are passed over, since none of their values holds a quote.
-/

namespace Elpis.Inbound

open Js Lib

/-! ## The shape of the text -/

theorem intercalate_append (sep : Text) (xs : List Text) {y : Text} (ys : List Text) :
    List.intercalate sep (xs ++ y :: ys) =
      xs.flatMap (fun x => x ++ sep) ++ List.intercalate sep (y :: ys) := by
  induction xs with
  | nil => rfl
  | cons x xs ih =>
      cases xs with
      | nil => simp
      | cons x' xs =>
          rw [List.cons_append, List.cons_append, List.intercalate_cons_cons, ← List.cons_append, ih]
          simp

/-- The children and the body, each on its line. -/
def region (children : List Text) (body : Text) : Text :=
  '\n' :: (children.flatMap (fun c => "  ".toList ++ c ++ "\n".toList) ++ (body ++ "\n".toList))

def attrsText (m : EnvelopeMessage) (localMarker : Text) : Text :=
  List.intercalate " ".toList (envelopeAttrs m localMarker)

/-- What follows the closing tag. -/
def behind (replyNotice : Option InboundReplyNotice) : Text :=
  match replyNotice with
  | some notice => '\n' :: notice.text
  | none => []

theorem formatInboundEnvelope_shape (m : EnvelopeMessage) (localMarker : Text)
    (replyNotice : Option InboundReplyNotice) :
    formatInboundEnvelope m localMarker replyNotice =
      ("<incoming-message".toList ++ (' ' :: attrsText m localMarker)) ++
        ('>' :: (region (childParts m) (envelopeBody m) ++
          ("</incoming-message>".toList ++ behind replyNotice))) := by
  have hsep : "\n".toList = ['\n'] := by decide
  have hopen : openTag m localMarker =
      "<incoming-message".toList ++ (' ' :: attrsText m localMarker) ++ ['>'] := by
    have htag : "<incoming-message ".toList = "<incoming-message".toList ++ [' '] := by decide
    have hend : ">".toList = ['>'] := by decide
    unfold openTag attrsText
    rw [htag, hend, List.append_assoc _ [' '] _, List.singleton_append]
  have htail : List.intercalate "\n".toList
      ("</incoming-message>".toList :: (replyNotice.map InboundReplyNotice.text).toList) =
        "</incoming-message>".toList ++ behind replyNotice := by
    cases replyNotice with
    | none => simp [List.intercalate, behind]
    | some notice =>
        rw [Option.map_some, Option.toList_some, List.intercalate_cons_cons, hsep]
        simp [List.intercalate, behind]
  have hparts : [openTag m localMarker] ++ (childParts m).map (fun s => "  ".toList ++ s) ++ [envelopeBody m] ++
      ["</incoming-message>".toList] ++ (replyNotice.map InboundReplyNotice.text).toList =
        (openTag m localMarker :: ((childParts m).map (fun s => "  ".toList ++ s) ++ [envelopeBody m])) ++
          "</incoming-message>".toList :: (replyNotice.map InboundReplyNotice.text).toList := by
    simp only [List.append_assoc, List.cons_append, List.nil_append]
  unfold formatInboundEnvelope
  rw [hparts, intercalate_append, htail, hopen, hsep]
  unfold region
  simp only [List.flatMap_cons, List.flatMap_append, List.flatMap_map, List.flatMap_nil, hsep,
    List.append_assoc, List.cons_append, List.nil_append]

theorem gt_not_mem_openTag (m : EnvelopeMessage) (localMarker : Text) :
    '>' ∉ "<incoming-message".toList ++ (' ' :: attrsText m localMarker) := by
  have hattrs : '>' ∉ attrsText m localMarker :=
    not_mem_intercalate (by decide) (not_mem_envelopeAttrs (Or.inr rfl) m localMarker)
  simp only [List.mem_append, List.mem_cons, not_or]
  exact ⟨by decide, by decide, hattrs⟩

theorem lt_not_mem_behind (replyNotice : Option InboundReplyNotice) : '<' ∉ behind replyNotice := by
  cases replyNotice with
  | none => simp [behind]
  | some notice => cases notice <;> decide +kernel

/-- A text without the first character of a pattern has no place for it. -/
theorem occurrences_isPrefixOf_eq_zero {c : Char} {rest cs : Text} (hc : c ∉ cs) :
    occurrences (fun xs => (c :: rest).isPrefixOf xs) cs = 0 :=
  have hmark : IsMark c (fun _ => False) (fun xs => (c :: rest).isPrefixOf xs) :=
    isMark_isPrefixOf (fun _ h => h.elim)
  occurrences_eq_zero hmark hc

/-- The reader cuts out what stands between the opening tag and the closing one. -/
theorem extractUtterance_region (m : EnvelopeMessage) (localMarker : Text)
    (replyNotice : Option InboundReplyNotice) :
    extractUtterance (formatInboundEnvelope m localMarker replyNotice) =
      trimList (stripLeadingChildren (region (childParts m) (envelopeBody m))) := by
  have hpat : "<incoming-message".toList = '<' :: "incoming-message".toList := by decide
  have hclosing : "</incoming-message>".toList = '<' :: "/incoming-message>".toList := by decide
  have hgt : ">".toList = ['>'] := by decide
  have hfree := gt_not_mem_openTag m localMarker
  have hbehind := lt_not_mem_behind replyNotice
  rw [formatInboundEnvelope_shape]
  generalize attrsText m localMarker = attrs at *
  generalize region (childParts m) (envelopeBody m) = inner
  generalize behind replyNotice = tail at *
  have hopen : indexOf "<incoming-message".toList
      (("<incoming-message".toList ++ ' ' :: attrs) ++
        '>' :: (inner ++ ("</incoming-message>".toList ++ tail))) = some 0 := by
    rw [hpat, List.append_assoc]
    exact indexOf_append (a := []) (by decide) rfl _
  have hend : indexOf ">".toList
      (("<incoming-message".toList ++ ' ' :: attrs) ++
        '>' :: (inner ++ ("</incoming-message>".toList ++ tail))) =
          some ("<incoming-message".toList ++ ' ' :: attrs).length := by
    rw [hgt]
    exact indexOf_append (by decide) (occurrences_isPrefixOf_eq_zero hfree) _
  have hlast : lastIndexOf "</incoming-message>".toList
      (("<incoming-message".toList ++ ' ' :: attrs) ++
        '>' :: (inner ++ ("</incoming-message>".toList ++ tail))) =
          some (("<incoming-message".toList ++ ' ' :: attrs) ++ '>' :: inner).length := by
    rw [hclosing, ← List.cons_append, ← List.append_assoc]
    refine lastIndexOf_append (occurrences_isPrefixOf_eq_zero ?_) _
    simp only [List.mem_append, not_or]
    exact ⟨by decide, hbehind⟩
  unfold extractUtterance
  generalize "<incoming-message".toList ++ ' ' :: attrs = front at *
  simp only [hopen, List.drop_zero, hend, hlast, Nat.zero_add]
  have hlt : front.length < (front ++ '>' :: inner).length := by simp
  have hinner : ((front ++ '>' :: (inner ++ ("</incoming-message>".toList ++ tail))).take
      (front ++ '>' :: inner).length).drop (front.length + 1) = inner := by
    rw [← List.cons_append, ← List.append_assoc, List.take_left, List.drop_append]
    simp
  rw [if_pos hlt, hinner]

/-! ## Taking a child off -/

/-- A text that the reader takes off whole when it stands on a line of its own. -/
def IsChild (c : Text) : Prop :=
  (∀ d ∈ c.head?, isSpace d = false) ∧ c ≠ [] ∧
    ∀ more, leadingChild (c ++ '\n' :: more) = some ('\n' :: more)

theorem stripLeadingChildren_child {c : Text} (hc : IsChild c) (more : Text) :
    stripLeadingChildren ('\n' :: ("  ".toList ++ c ++ "\n".toList ++ more)) =
      stripLeadingChildren ('\n' :: more) := by
  obtain ⟨hhead, hne, hlead⟩ := hc
  have hsep : "\n".toList = ['\n'] := by decide
  have hindent : "  ".toList = [' ', ' '] := by decide
  have hspaces : isSpace '\n' = true ∧ isSpace ' ' = true := by decide
  have hdrop : ('\n' :: ("  ".toList ++ c ++ "\n".toList ++ more)).dropWhile isSpace = c ++ '\n' :: more := by
    rw [hindent, hsep]
    simp only [List.append_assoc, List.cons_append, List.nil_append,
      List.dropWhile_cons_of_pos hspaces.1, List.dropWhile_cons_of_pos hspaces.2]
    cases c with
    | nil => exact absurd rfl hne
    | cons d c => rw [List.cons_append, List.dropWhile_cons_of_neg (by simp [hhead d rfl])]
  rw [stripLeadingChildren, hdrop, hlead]

theorem stripLeadingChildren_region {children : List Text} (h : ∀ c ∈ children, IsChild c) (body : Text) :
    stripLeadingChildren (region children body) = stripLeadingChildren ('\n' :: (body ++ "\n".toList)) := by
  unfold region
  induction children with
  | nil => rfl
  | cons c children ih =>
      rw [List.flatMap_cons, List.append_assoc,
        stripLeadingChildren_child (h c List.mem_cons_self),
        ih (fun c' hc' => h c' (List.mem_cons_of_mem c hc'))]

/-- An opening tag, something, and a closing tag. -/
def IsElement (t c : Text) : Prop :=
  ∃ inner, c = '<' :: t ++ (inner ++ ("</".toList ++ t ++ ">".toList))

theorem isElement_of_prefix {t front : Text} (h : '<' :: t <+: front) :
    IsElement t (front ++ ("</".toList ++ t ++ ">".toList)) := by
  obtain ⟨inner, rfl⟩ := h
  exact ⟨inner, List.append_assoc _ _ _⟩

theorem childTags_isName : ∀ t ∈ ENVELOPE_CHILD_TAGS, IsName t ∧ '<' ∉ t := by decide

/-- No child's tag begins with another's. -/
theorem childTags_apart : ∀ t ∈ ENVELOPE_CHILD_TAGS, ∀ t' ∈ ENVELOPE_CHILD_TAGS,
    t <+: t' ∨ t' <+: t → t' = t := by decide

theorem find?_childTag {t : Text} (ht : t ∈ ENVELOPE_CHILD_TAGS) (more : Text) :
    ENVELOPE_CHILD_TAGS.find? (fun t' => ('<' :: t').isPrefixOf ('<' :: t ++ more)) = some t := by
  have hself : ('<' :: t).isPrefixOf ('<' :: t ++ more) = true :=
    List.isPrefixOf_iff_prefix.mpr (List.prefix_append _ _)
  have hsome : (ENVELOPE_CHILD_TAGS.find?
      (fun t' => ('<' :: t').isPrefixOf ('<' :: t ++ more))).isSome = true :=
    List.find?_isSome.mpr ⟨t, ht, hself⟩
  obtain ⟨t', ht'⟩ := Option.isSome_iff_exists.mp hsome
  have htest : ('<' :: t').isPrefixOf ('<' :: t ++ more) = true := by
    have := List.find?_some ht'
    exact this
  have hpre := List.isPrefixOf_iff_prefix.mp htest
  have hboth : t <+: t' ∨ t' <+: t := by
    rcases List.prefix_or_prefix_of_prefix hpre (List.prefix_append ('<' :: t) more) with h | h
    · exact Or.inr (List.cons_prefix_cons.mp h).2
    · exact Or.inl (List.cons_prefix_cons.mp h).2
  rw [ht', childTags_apart t ht t' (List.mem_of_find?_eq_some ht') hboth]

theorem closesTag_of_isPrefixOf {t : Text} (ht : t ∈ ENVELOPE_CHILD_TAGS) (xs : Text)
    (h : ("</".toList ++ t ++ ">".toList).isPrefixOf xs = true) : closesTag [t] xs = true := by
  obtain ⟨rest, rfl⟩ := List.isPrefixOf_iff_prefix.mp h
  have hopen : "</".toList = ['<', '/'] := by decide
  have hend : ">".toList = ['>'] := by decide
  have hstrip : ∀ t' ∈ ENVELOPE_CHILD_TAGS, ∀ more, stripWord t' (t' ++ more) = some more := by
    intro t' ht' more
    have hlower : ∀ t' ∈ ENVELOPE_CHILD_TAGS, ∀ c ∈ t', c.toLower = c := by decide
    have hall := hlower t' ht'
    clear ht'
    induction t' with
    | nil => rfl
    | cons c t' ih =>
        rw [List.cons_append, stripWord, if_pos (hall c List.mem_cons_self)]
        exact ih (fun c' hc' => hall c' (List.mem_cons_of_mem c hc'))
  rw [hopen, hend]
  simp only [List.append_assoc, List.cons_append, List.nil_append, closesTag, beginsWithName,
    List.any_cons, List.any_nil, hstrip t ht, Option.any_some, Bool.or_false]
  rfl

/-- An element is taken off whole if its closing tag is the only one in it. -/
theorem isChild_of_isElement {t c : Text} (ht : t ∈ ENVELOPE_CHILD_TAGS) (hc : IsElement t c)
    (hone : occurrences (closesTag [t]) c = occurrences (closesTag [t]) ("</".toList ++ t ++ ">".toList)) :
    IsChild c := by
  obtain ⟨inner, rfl⟩ := hc
  refine ⟨by simp [isSpace], by simp, fun more => ?_⟩
  have hclose : "</".toList ++ t ++ ">".toList = '<' :: ("/".toList ++ t ++ ">".toList) := by
    have h1 : "</".toList = '<' :: "/".toList := by decide
    rw [h1]
    rfl
  have hname : ∀ name ∈ [t], IsName name := by
    intro name hmem
    rw [List.mem_singleton.mp hmem]
    exact (childTags_isName t ht).1
  have hbefore : occurrences (fun xs => ("</".toList ++ t ++ ">".toList).isPrefixOf xs) ('<' :: t ++ inner) = 0 := by
    have hsplit := occurrences_append (isMark_closesTag hname)
      (a := '<' :: t ++ inner) (b := "</".toList ++ t ++ ">".toList) (by
        rw [hclose]
        intro s hs
        cases hs
        decide)
    rw [List.append_assoc ('<' :: t) inner, hone] at hsplit
    have hle := occurrences_le (closesTag_of_isPrefixOf ht) ('<' :: t ++ inner)
    have hzero : occurrences (closesTag [t]) ('<' :: t ++ inner) = 0 := by omega
    exact Nat.le_zero.mp (hle.trans hzero.le)
  have hfree : '<' ∉ "/".toList ++ t ++ ">".toList := by
    simp only [List.mem_append, not_or]
    exact ⟨⟨by decide, (childTags_isName t ht).2⟩, by decide⟩
  rw [hclose] at hbefore ⊢
  have hindex := indexOf_append hfree hbefore ('\n' :: more)
  have hshape : '<' :: t ++ (inner ++ '<' :: ("/".toList ++ t ++ ">".toList)) ++ '\n' :: more =
      '<' :: t ++ (inner ++ ('<' :: ("/".toList ++ t ++ ">".toList) ++ '\n' :: more)) := by
    simp only [List.append_assoc]
  have hlength : ('<' :: t ++ inner).length + t.length + 3 =
      ('<' :: t ++ (inner ++ '<' :: ("/".toList ++ t ++ ">".toList))).length := by
    have : "/".toList.length = 1 ∧ ">".toList.length = 1 := by decide
    simp only [List.length_append, List.length_cons, this]
    omega
  unfold leadingChild
  rw [hshape, find?_childTag ht]
  simp only [hclose]
  rw [← List.append_assoc ('<' :: t) inner, hindex, Option.map_some, hlength,
    List.append_assoc ('<' :: t) inner, ← hshape, List.drop_left]

/-! ### The children of an envelope -/

theorem isMark_closesChild {t : Text} (ht : t ∈ ENVELOPE_CHILD_TAGS) : IsMark '<' Stops (closesTag [t]) := by
  refine isMark_closesTag (fun name hname => ?_)
  rw [List.mem_singleton.mp hname]
  exact (childTags_isName t ht).1

theorem isChild_replyPart (r : ReplyTo) : IsChild (replyPart r) := by
  have ht : "reply-to".toList ∈ ENVELOPE_CHILD_TAGS := by decide
  have htag : "<reply-to ".toList = '<' :: "reply-to".toList ++ [' '] := by decide
  have hclose : "</reply-to>".toList = "</".toList ++ "reply-to".toList ++ ">".toList := by decide
  have hzero : occurrences (closesTag ["reply-to".toList]) "<reply-to".toList = 0 := by decide
  refine isChild_of_isElement ht ?_ ?_
  · unfold replyPart
    rw [htag, hclose]
    refine isElement_of_prefix ?_
    simp only [List.append_assoc]
    exact List.prefix_append _ _
  · rw [occurrences_replyPart (isMark_closesChild ht) (closesTag_isEnvelopeTag (by simp [envelopeTagNames])),
      hzero, Nat.zero_add, hclose]

theorem isChild_forwardedPart (f : Forwarded) : IsChild (forwardedPart f) := by
  have ht : "forwarded-from".toList ∈ ENVELOPE_CHILD_TAGS := by decide
  have htag : "<forwarded-from ".toList = '<' :: "forwarded-from".toList ++ [' '] := by decide
  have hclose : "</forwarded-from>".toList = "</".toList ++ "forwarded-from".toList ++ ">".toList := by decide
  have hzero : occurrences (closesTag ["forwarded-from".toList]) "<forwarded-from".toList = 0 := by decide
  refine isChild_of_isElement ht ?_ ?_
  · unfold forwardedPart
    rw [htag, hclose]
    refine isElement_of_prefix ?_
    simp only [List.append_assoc]
    exact List.prefix_append _ _
  · rw [occurrences_forwardedPart (isMark_closesChild ht) (closesTag_isEnvelopeTag (by simp [envelopeTagNames])),
      hzero, Nat.zero_add, hclose]

theorem isChild_mentionsPart (mentions : List Text) : IsChild (mentionsPart mentions) := by
  have ht : "mentions".toList ∈ ENVELOPE_CHILD_TAGS := by decide
  have htag : "<mentions>".toList = '<' :: "mentions".toList ++ ['>'] := by decide
  have hclose : "</mentions>".toList = "</".toList ++ "mentions".toList ++ ">".toList := by decide
  have hzero : occurrences (closesTag ["mentions".toList]) "<mentions".toList = 0 := by decide
  refine isChild_of_isElement ht ?_ ?_
  · unfold mentionsPart
    rw [htag, hclose]
    refine isElement_of_prefix ?_
    simp only [List.append_assoc]
    exact List.prefix_append _ _
  · rw [occurrences_mentionsPart (isMark_closesChild ht),
      hzero, Nat.zero_add, hclose]

theorem isChild_groupPart {g : AnimationFrameGroup} (hid : '<' ∉ g.id) : IsChild (groupPart g) := by
  have ht : "animation-frames".toList ∈ ENVELOPE_CHILD_TAGS := by decide
  have htag : "<animation-frames kind=\"".toList = '<' :: "animation-frames".toList ++ " kind=\"".toList := by decide
  have hclose : "</animation-frames>".toList = "</".toList ++ "animation-frames".toList ++ ">".toList := by decide
  have hzero : occurrences (closesTag ["animation-frames".toList]) "<animation-frames".toList = 0 := by decide
  refine isChild_of_isElement ht ?_ ?_
  · unfold groupPart
    rw [htag, hclose]
    refine isElement_of_prefix ?_
    simp only [List.append_assoc]
    exact List.prefix_append _ _
  · rw [occurrences_groupPart (isMark_closesChild ht) hid,
      hzero, Nat.zero_add, hclose]

theorem isChild_contentPart {a : InboundMessageAttachment} {part : Text} (h : contentPart a = some part) :
    IsChild part := by
  have ht : "attachment-content".toList ∈ ENVELOPE_CHILD_TAGS := by decide
  have htag : "<attachment-content ".toList = '<' :: "attachment-content".toList ++ [' '] := by decide
  have hclose : "</attachment-content>".toList =
      "</".toList ++ "attachment-content".toList ++ ">".toList := by decide
  have hzero : occurrences (closesTag ["attachment-content".toList]) "<attachment-content".toList = 0 := by
    decide
  have hone := occurrences_contentPart (isMark_closesChild ht)
    (closesTag_isEnvelopeTag (by simp [envelopeTagNames])) h
  rw [hzero, Nat.zero_add, hclose] at hone
  refine isChild_of_isElement ht ?_ hone
  obtain ⟨body, -, rfl⟩ := Option.map_eq_some_iff.mp h
  rw [htag, hclose]
  refine isElement_of_prefix ?_
  simp only [List.append_assoc]
  exact List.prefix_append _ _

/-- A text that begins as an index line does. -/
def BeginsIndexLine (rest : Text) : Prop :=
  ∃ digits more, digits ≠ [] ∧ (∀ d ∈ digits, d.isDigit = true) ∧
    rest = "attachment#".toList ++ (digits ++ ':' :: more)

theorem indexLine_of_begins {digits more : Text} (hne : digits ≠ []) (hd : ∀ d ∈ digits, d.isDigit = true) :
    indexLine ("attachment#".toList ++ (digits ++ ':' :: more)) =
      some ((':' :: more).dropWhile (fun c => c ≠ '\n')) := by
  have hlength : "attachment#".toList.length = 11 := by decide
  have hdrop : ("attachment#".toList ++ (digits ++ ':' :: more)).drop 11 = digits ++ ':' :: more := by
    rw [← hlength, List.drop_left]
  have hcolon : ¬ (':'.isDigit = true) := by decide
  have htake : (digits ++ ':' :: more).takeWhile Char.isDigit = digits := by
    rw [List.takeWhile_append_of_pos hd, List.takeWhile_cons_of_neg hcolon, List.append_nil]
  have hbehind : (digits ++ ':' :: more).dropWhile Char.isDigit = ':' :: more := by
    rw [List.dropWhile_append_of_pos hd, List.dropWhile_cons_of_neg hcolon]
  have hpre : "attachment#".toList.isPrefixOf ("attachment#".toList ++ (digits ++ ':' :: more)) = true :=
    List.isPrefixOf_iff_prefix.mpr (List.prefix_append _ _)
  unfold indexLine
  simp only [hdrop, htake, hbehind]
  rw [if_pos ⟨hpre, hne, rfl⟩]

theorem begins_of_indexLine {rest more : Text} (h : indexLine rest = some more) : BeginsIndexLine rest := by
  unfold indexLine at h
  simp only at h
  split at h
  · rename_i hline
    obtain ⟨hpre, hne, hcolon⟩ := hline
    obtain ⟨tail, rfl⟩ := List.isPrefixOf_iff_prefix.mp hpre
    have hlength : "attachment#".toList.length = 11 := by decide
    rw [← hlength, List.drop_left] at hne hcolon
    refine ⟨tail.takeWhile Char.isDigit, (tail.dropWhile Char.isDigit).tail, hne,
      fun d hd => List.mem_takeWhile_imp hd, ?_⟩
    congr 1
    have hcons : ':' :: (tail.dropWhile Char.isDigit).tail = tail.dropWhile Char.isDigit := by
      cases hdrop : tail.dropWhile Char.isDigit with
      | nil => simp [hdrop] at hcolon
      | cons c cs =>
          rw [hdrop] at hcolon
          cases hcolon
          rfl
    rw [hcons, List.takeWhile_append_dropWhile]
  · cases h

/-- The fields that an index line shows are on one line. -/
def OneLine (a : InboundMessageAttachment) : Prop :=
  '\n' ∉ a.name ∧ (∀ type ∈ a.contentType, '\n' ∉ type) ∧ ∀ path ∈ a.localPath, '\n' ∉ path

theorem numeral_digits (n : ℕ) : numeral n ≠ [] ∧ ∀ d ∈ numeral n, d.isDigit = true := by
  have hdigits : numeral n = Nat.toDigits 10 n := by simp [numeral]
  rw [hdigits]
  refine ⟨?_, fun d hd => Nat.isDigit_of_mem_toDigits (by decide) (by decide) hd⟩
  exact Nat.toDigits_ne_nil

theorem isChild_indexPart {a : InboundMessageAttachment × ℕ} (h : OneLine a.1) : IsChild (indexPart a) := by
  obtain ⟨a, i⟩ := a
  obtain ⟨hname, htype, hpath⟩ := h
  have hcolon : ": ".toList = [':', ' '] := by decide
  have hnumeral : '\n' ∉ numeral a.size := fun hmem => absurd ((numeral_digits a.size).2 _ hmem) (by decide)
  have htype' : '\n' ∉ a.contentType.getD "unknown/type".toList := by
    cases hc : a.contentType with
    | none => decide
    | some type => exact htype type (by rw [hc]; rfl)
  have hpath' : '\n' ∉ pathText a.localPath := by
    cases hp : a.localPath with
    | none => simp [pathText]
    | some path =>
        simp only [pathText]
        split
        · simp
        · simp only [List.mem_append, not_or]
          exact ⟨by decide, hpath path (by rw [hp]; rfl)⟩
  have hforwarded : '\n' ∉ (if a.forwarded then " [forwarded]".toList else []) := by
    cases a.forwarded <;> decide
  have hinlined : '\n' ∉ (if a.inlineText.isSome then " (inlined below)".toList else []) := by
    cases a.inlineText.isSome <;> decide
  -- the line is its number, a colon, and a tail without a line feed
  obtain ⟨tail, htail, hline⟩ : ∃ tail, '\n' ∉ tail ∧
      indexPart (a, i) = "attachment#".toList ++ (numeral (i + 1) ++ ':' :: tail) := by
    unfold indexPart
    rw [hcolon]
    simp only [List.append_assoc, List.cons_append, List.nil_append]
    refine ⟨_, ?_, rfl⟩
    simp only [List.mem_cons, List.mem_append, not_or]
    exact ⟨by decide, hname, by decide, htype', by decide, hnumeral, by decide, hforwarded, hpath', hinlined⟩
  have hfirst : ∃ cs, "attachment#".toList = 'a' :: cs := ⟨"ttachment#".toList, by decide⟩
  obtain ⟨cs, hcs⟩ := hfirst
  rw [hline]
  refine ⟨by rw [hcs]; simp [isSpace], by rw [hcs]; simp, fun more => ?_⟩
  have hnotag : ENVELOPE_CHILD_TAGS.find? (fun t => ('<' :: t).isPrefixOf
      ("attachment#".toList ++ (numeral (i + 1) ++ ':' :: tail) ++ '\n' :: more)) = none := by
    rw [List.find?_eq_none]
    intro t _
    rw [hcs]
    simp [List.isPrefixOf]
  have hbefore : ∀ c ∈ ':' :: tail, (decide (c ≠ '\n')) = true := by
    intro c hc
    rw [decide_eq_true_eq]
    rintro rfl
    rcases List.mem_cons.mp hc with hc | hc
    · exact absurd hc (by decide)
    · exact htail hc
  unfold leadingChild
  rw [hnotag]
  simp only [List.append_assoc, List.cons_append]
  rw [indexLine_of_begins (numeral_digits _).1 (numeral_digits _).2, ← List.cons_append,
    List.dropWhile_append_of_pos hbefore, List.dropWhile_cons_of_neg (by decide)]

theorem isChild_childParts {m : EnvelopeMessage} (h : ∀ a ∈ m.attachments, OneLine a) :
    ∀ c ∈ childParts m, IsChild c := by
  intro c hc
  simp only [childParts, formatAttachmentParts, List.mem_append, Option.mem_toList,
    Option.map_eq_some_iff, List.mem_map, List.mem_filterMap] at hc
  rcases hc with ((⟨r, -, rfl⟩ | ⟨f, -, rfl⟩) | hc) | ((⟨g, hg, rfl⟩ | ⟨a, ha, rfl⟩) | ⟨a, -, ha⟩)
  · exact isChild_replyPart r
  · exact isChild_forwardedPart f
  · split at hc
    · cases hc
    · rw [List.mem_singleton.mp hc]
      exact isChild_mentionsPart m.mentions
  · exact isChild_groupPart (animationFrameGroups_id m.attachments g hg)
  · exact isChild_indexPart (h a.1 (List.fst_mem_of_mem_zipIdx ha))
  · exact isChild_contentPart ha

/-! ### The body -/

/-- The text begins, behind white space, as a child that its neutralizing leaves alone: an
index line, or an animation with a closing tag. -/
def imitatesChild (body : Text) : Bool :=
  let rest := body.dropWhile isSpace
  (indexLine rest).isSome ||
    ("<animation-frames".toList.isPrefixOf rest && includes "</animation-frames>".toList rest)

theorem begins_of_append {rest : Text} (h : BeginsIndexLine (rest ++ ['\n'])) : BeginsIndexLine rest := by
  obtain ⟨digits, more, hne, hd, heq⟩ := h
  rcases more.eq_nil_or_concat with rfl | ⟨more', last, rfl⟩
  · -- the last character would be the colon
    rw [← List.append_assoc] at heq
    cases (List.append_inj' heq rfl).2
  · refine ⟨digits, more', hne, hd, ?_⟩
    have hsplit : rest ++ ['\n'] = ("attachment#".toList ++ (digits ++ ':' :: more')) ++ [last] := by
      rw [heq]
      simp
    exact (List.append_inj' hsplit rfl).1

theorem occurrences_append_newline {q : Text → Bool} (hq : IsMark '<' Stops q) (rest : Text) :
    occurrences q (rest ++ ['\n']) = occurrences q rest := by
  rw [occurrences_sep hq (by decide) (by decide)]
  rfl

theorem occurrences_suffix {q : Text → Bool} {xs ys : Text} (h : xs <:+ ys) :
    occurrences q xs ≤ occurrences q ys := by
  obtain ⟨front, rfl⟩ := h
  induction front with
  | nil => exact Nat.le_refl _
  | cons x front ih => exact ih.trans (Nat.le_add_left _ _)

theorem isPrefixOf_of_append {rest : Text}
    (h : ('<' :: "animation-frames".toList).isPrefixOf (rest ++ ['\n']) = true) :
    "<animation-frames".toList.isPrefixOf rest = true := by
  have hpat : "<animation-frames".toList = '<' :: "animation-frames".toList := by decide
  have hmark : IsMark '<' (fun s => s = '\n') (fun xs => ('<' :: "animation-frames".toList).isPrefixOf xs) :=
    isMark_isPrefixOf (by rintro _ rfl; decide)
  rw [hpat]
  cases rest with
  | nil => exact absurd h (by decide)
  | cons c rest => exact (hmark.stops (List.cons_ne_nil c rest) rfl).symm.trans h

theorem occurrences_closing_append {rest : Text} (h : indexOf "</animation-frames>".toList rest = none) :
    occurrences (fun xs => ("</".toList ++ "animation-frames".toList ++ ">".toList).isPrefixOf xs)
      (rest ++ ['\n']) = 0 := by
  have hpat : "</".toList ++ "animation-frames".toList ++ ">".toList = '<' :: "/animation-frames>".toList := by
    decide
  have hpat' : "</animation-frames>".toList = '<' :: "/animation-frames>".toList := by decide
  have hmark : IsMark '<' (fun s => s = '\n') (fun xs => ('<' :: "/animation-frames>".toList).isPrefixOf xs) :=
    isMark_isPrefixOf (by rintro _ rfl; decide)
  rw [hpat'] at h
  rw [hpat, occurrences_sep hmark rfl (by decide), occurrences_of_indexOf_eq_none h]
  rfl

/-- A neutralized text that imitates no child has none in front. -/
theorem leadingChild_body {value : Text} (h : imitatesChild (neutralizeEnvelopeTags value) = false) :
    leadingChild ((neutralizeEnvelopeTags value).dropWhile isSpace ++ ['\n']) = none := by
  obtain ⟨hindex, hanimation⟩ := Bool.or_eq_false_iff.mp h
  have hsuffix : (neutralizeEnvelopeTags value).dropWhile isSpace <:+ neutralizeEnvelopeTags value :=
    List.dropWhile_suffix _
  generalize (neutralizeEnvelopeTags value).dropWhile isSpace = rest at *
  unfold leadingChild
  split
  · rename_i t ht
    have hmem := List.mem_of_find?_eq_some ht
    have htest : ('<' :: t).isPrefixOf (rest ++ ['\n']) = true := by
      have := List.find?_some ht
      exact this
    have hclosed : occurrences (fun xs => ("</".toList ++ t ++ ">".toList).isPrefixOf xs) (rest ++ ['\n']) = 0 := by
      by_cases hframes : t = "animation-frames".toList
      · -- only this tag is not neutralized, so that it is open is all that is known
        subst hframes
        have hopen : "<animation-frames".toList.isPrefixOf rest = true := isPrefixOf_of_append htest
        rw [hopen, Bool.true_and] at hanimation
        exact occurrences_closing_append (Option.isSome_eq_false_iff.mp hanimation |> Option.isNone_iff_eq_none.mp)
      · have hsub : [t] ⊆ envelopeTagNames := by
          have hcases : ∀ t ∈ ENVELOPE_CHILD_TAGS, t ≠ "animation-frames".toList → t ∈ envelopeTagNames := by
            decide
          rintro t' ht'
          rw [List.mem_singleton.mp ht']
          exact hcases t hmem hframes
        have hzero := occurrences_neutralize (isMark_closesChild hmem) (closesTag_isEnvelopeTag hsub) value
        have hle := occurrences_le (closesTag_of_isPrefixOf hmem) (rest ++ ['\n'])
        rw [occurrences_append_newline (isMark_closesChild hmem)] at hle
        exact Nat.le_zero.mp (hle.trans ((occurrences_suffix hsuffix).trans hzero.le))
    rw [indexOf_eq_none (by simp) hclosed]
    rfl
  · cases hline : indexLine (rest ++ ['\n']) with
    | none => rfl
    | some more =>
        obtain ⟨digits, tail, hne, hd, heq⟩ := begins_of_append (begins_of_indexLine hline)
        rw [heq, indexLine_of_begins hne hd] at hindex
        cases hindex

theorem trimList_dropWhile_append (body : Text) :
    trimList ((body ++ ['\n']).dropWhile isSpace) = trimList body := by
  have hnewline : isSpace '\n' = true := by decide
  rw [List.dropWhile_append]
  split
  · rename_i hnil
    rw [List.isEmpty_iff] at hnil
    rw [List.dropWhile_cons_of_pos hnewline, List.dropWhile_nil]
    simp [trimList, hnil]
  · have hidem : (body.dropWhile isSpace ++ ['\n']).dropWhile isSpace = body.dropWhile isSpace ++ ['\n'] := by
      refine dropWhile_eq_self (fun c hc => ?_)
      cases hdrop : body.dropWhile isSpace with
      | nil => simp_all
      | cons d rest =>
          rw [hdrop] at hc
          cases hc
          exact dropWhile_head body _ (by rw [hdrop]; rfl)
    unfold trimList
    rw [hidem, List.reverse_append, List.reverse_singleton, List.singleton_append,
      List.dropWhile_cons_of_pos hnewline]

/-- The reader takes all children off and trims what is left. -/
theorem extractUtterance_formatInboundEnvelope {m : EnvelopeMessage}
    (hlines : ∀ a ∈ m.attachments, OneLine a) (hbody : imitatesChild (envelopeBody m) = false)
    (localMarker : Text) (replyNotice : Option InboundReplyNotice) :
    extractUtterance (formatInboundEnvelope m localMarker replyNotice) = trimList (envelopeBody m) := by
  have hnewline : isSpace '\n' = true := by decide
  have hsep : "\n".toList = ['\n'] := by decide
  have hnone : leadingChild ((envelopeBody m ++ ['\n']).dropWhile isSpace) = none := by
    rw [List.dropWhile_append]
    split
    · rw [List.dropWhile_cons_of_pos hnewline]
      rfl
    · exact leadingChild_body hbody
  rw [extractUtterance_region, stripLeadingChildren_region (isChild_childParts hlines), hsep,
    stripLeadingChildren, List.dropWhile_cons_of_pos hnewline, hnone]
  exact trimList_dropWhile_append _

end Elpis.Inbound
