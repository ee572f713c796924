import Elpis.Inbound.Utterance

/-!
# Author and time of an envelope

The reader looks for an attribute by its name behind white space. A value before it can hide
it only by ending as the attribute begins, since quotes are escaped in every value.
-/

namespace Elpis.Inbound

open Js Lib

/-! ## Looking for an attribute -/

/-- The value ends with white space, the name and an equality sign. -/
def EndsAs (key value : Text) : Prop :=
  ∃ front c, isSpace c = true ∧ value = front ++ c :: (key ++ ['='])

/-- A text of a name's kind: no space, quote or equality sign. -/
def IsKey (key : Text) : Prop := ∀ c ∈ key, isSpace c = false ∧ c ≠ '"' ∧ c ≠ '='

instance (key : Text) : Decidable (IsKey key) := inferInstanceAs (Decidable (∀ _ ∈ _, _))

theorem upTo_append {stop : Char} {value : Text} (h : stop ∉ value) (rest : Text) :
    upTo stop (value ++ stop :: rest) = some value := by
  have hall : ∀ c ∈ value, decide (c ≠ stop) = true := by
    intro c hc
    rw [decide_eq_true_eq]
    rintro rfl
    exact h hc
  rw [upTo, if_pos (by simp), List.takeWhile_append_of_pos hall,
    List.takeWhile_cons_of_neg (by simp), List.append_nil]

theorem matchAttribute_cons {key : Text} {c : Char} {cs : Text}
    (h : ¬ (isSpace c = true ∧ (key ++ "=\"".toList).isPrefixOf cs = true)) :
    matchAttribute key (c :: cs) = matchAttribute key cs := by
  rw [matchAttribute, if_neg h]

theorem matchAttribute_append {key front : Text} (h : ∀ c ∈ front, isSpace c = false) (rest : Text) :
    matchAttribute key (front ++ rest) = matchAttribute key rest := by
  induction front with
  | nil => rfl
  | cons c front ih =>
      have hc : isSpace c = false := h c List.mem_cons_self
      rw [List.cons_append, matchAttribute_cons (by simp [hc]),
        ih (fun d hd => h d (List.mem_cons_of_mem c hd))]

/-- Texts are cut at their first stop in one way only. -/
theorem cut_unique {stop : Char} {u v r s : Text} (hu : stop ∉ u) (hv : stop ∉ v)
    (h : u ++ stop :: r = v ++ stop :: s) : u = v := by
  have hleft := upTo_append hu r
  rw [h, upTo_append hv] at hleft
  exact (Option.some.inj hleft).symm

theorem quote_split {key value rest : Text} (hkey : '"' ∉ key) (hvalue : '"' ∉ value)
    (h : (key ++ "=\"".toList) <+: value ++ '"' :: rest) : value = key ++ ['='] := by
  have hsep : "=\"".toList = ['=', '"'] := by decide
  obtain ⟨more, hmore⟩ := h
  have hkeyq : '"' ∉ key ++ ['='] := by
    simp only [List.mem_append, List.mem_singleton, not_or]
    exact ⟨hkey, by decide⟩
  refine (cut_unique (r := more) (s := rest) hkeyq hvalue ?_).symm
  rw [← hmore, hsep, List.append_assoc, List.append_assoc]
  rfl

/-- A value that does not end as the attribute begins is passed over, its quote with it. -/
theorem matchAttribute_value {key value : Text} (hkey : IsKey key) (hvalue : '"' ∉ value)
    (hends : ¬ EndsAs key value) (rest : Text) :
    matchAttribute key (value ++ '"' :: rest) = matchAttribute key rest := by
  induction value with
  | nil => exact matchAttribute_cons (by simp [isSpace])
  | cons c value ih =>
      rw [List.mem_cons, not_or] at hvalue
      have hrest : ¬ EndsAs key value := by
        rintro ⟨front, d, hd, rfl⟩
        exact hends ⟨c :: front, d, hd, rfl⟩
      rw [List.cons_append, matchAttribute_cons, ih hvalue.2 hrest]
      rintro ⟨hspace, hpre⟩
      have hquote : '"' ∉ key := fun h => (hkey _ h).2.1 rfl
      have hsame := quote_split hquote hvalue.2 (List.isPrefixOf_iff_prefix.mp hpre)
      exact hends ⟨[], c, hspace, by rw [hsame]; rfl⟩

/-- `attrText` as the name, the sign, and the quoted value. -/
theorem attrText_append (name : String) (value rest : Text) :
    attrText name value ++ rest = name.toList ++ ('=' :: ('"' :: (escapeXmlAttr value ++ '"' :: rest))) := by
  have hsep : "=\"".toList = ['=', '"'] := by decide
  have hquote : "\"".toList = ['"'] := by decide
  unfold attrText
  rw [hsep, hquote]
  simp only [List.append_assoc, List.cons_append, List.nil_append]

theorem not_isPrefixOf_of_ne {key name : Text} (hkey : IsKey key) (hname : IsKey name) (hne : key ≠ name)
    (rest : Text) : (key ++ "=\"".toList).isPrefixOf (name ++ '=' :: rest) = false := by
  have hsep : "=\"".toList = ['=', '"'] := by decide
  rw [Bool.eq_false_iff]
  intro h
  obtain ⟨more, hmore⟩ := List.isPrefixOf_iff_prefix.mp h
  rw [hsep, List.append_assoc] at hmore
  exact hne (cut_unique (fun hmem => (hkey _ hmem).2.2 rfl) (fun hmem => (hname _ hmem).2.2 rfl) hmore)

/-- An attribute of another name is passed over. -/
theorem matchAttribute_skip {key : Text} {name : String} {value : Text} (hkey : IsKey key)
    (hname : IsKey name.toList) (hne : key ≠ name.toList) (hends : ¬ EndsAs key (escapeXmlAttr value))
    (rest : Text) :
    matchAttribute key (' ' :: (attrText name value ++ rest)) = matchAttribute key rest := by
  have hquote : '"' ∉ escapeXmlAttr value := not_mem_escape (Or.inr (Or.inr rfl)) value
  rw [attrText_append, matchAttribute_cons (by
    rw [not_isPrefixOf_of_ne hkey hname hne]
    simp)]
  rw [matchAttribute_append (fun c hc => (hname c hc).1), matchAttribute_cons (by simp [isSpace]),
    matchAttribute_cons (by simp [isSpace]), matchAttribute_value hkey hquote hends]

/-- The first attribute of the name is found. -/
theorem matchAttribute_hit (name : String) (value rest : Text) :
    matchAttribute name.toList (' ' :: (attrText name value ++ rest)) = some (escapeXmlAttr value) := by
  have hsep : "=\"".toList = ['=', '"'] := by decide
  have hquote : '"' ∉ escapeXmlAttr value := not_mem_escape (Or.inr (Or.inr rfl)) value
  have hpre : (name.toList ++ "=\"".toList).isPrefixOf
      (name.toList ++ ('=' :: ('"' :: (escapeXmlAttr value ++ '"' :: rest)))) = true := by
    rw [List.isPrefixOf_iff_prefix, hsep]
    exact ⟨escapeXmlAttr value ++ '"' :: rest, by simp⟩
  have hdrop : (name.toList ++ ('=' :: ('"' :: (escapeXmlAttr value ++ '"' :: rest)))).drop
      (name.toList.length + 2) = escapeXmlAttr value ++ '"' :: rest := by
    rw [← List.drop_drop, List.drop_left]
    rfl
  rw [attrText_append, matchAttribute, if_pos ⟨by decide, hpre⟩, hdrop, upTo_append hquote]

/-- Among attributes, the first of the name is found if no value before it imitates it. -/
theorem matchAttribute_attrs {name : String} (hname : IsKey name.toList) {before : List (String × Text)}
    (hbefore : ∀ p ∈ before, IsKey p.1.toList ∧ name.toList ≠ p.1.toList ∧
      ¬ EndsAs name.toList (escapeXmlAttr p.2)) (value : Text) (after : List (String × Text)) :
    matchAttribute name.toList
      ((before ++ (name, value) :: after).flatMap (fun p => ' ' :: attrText p.1 p.2)) =
        some (escapeXmlAttr value) := by
  induction before with
  | nil =>
      rw [List.nil_append, List.flatMap_cons, List.cons_append]
      exact matchAttribute_hit name value _
  | cons p before ih =>
      obtain ⟨hkey, hne, hends⟩ := hbefore p List.mem_cons_self
      rw [List.cons_append, List.flatMap_cons, List.cons_append,
        matchAttribute_skip hname hkey hne hends]
      exact ih (fun p' hp' => hbefore p' (List.mem_cons_of_mem p hp'))

/-! ## Escaping keeps endings -/

theorem escapeChar_cases (c : Char) : escapeChar c = [c] ∨ (escapeChar c).getLast? = some ';' := by
  unfold escapeChar
  split
  · exact Or.inr rfl
  · split
    · exact Or.inr rfl
    · split
      · exact Or.inr rfl
      · split
        · exact Or.inr rfl
        · split
          · exact Or.inr rfl
          · exact Or.inl rfl

theorem escape_eq_append {value front suffix : Text} (hsuffix : ';' ∉ suffix)
    (h : escapeXmlAttr value = front ++ suffix) :
    ∃ start, value = start ++ suffix ∧ escapeXmlAttr start = front := by
  induction suffix using List.reverseRecOn generalizing value with
  | nil => exact ⟨value, (List.append_nil _).symm, by rw [h, List.append_nil]⟩
  | append_singleton suffix c ih =>
      rw [List.mem_append, not_or, List.mem_singleton] at hsuffix
      rcases value.eq_nil_or_concat with rfl | ⟨init, d, rfl⟩
      · simp [escapeXmlAttr] at h
      · have hsplit : escapeXmlAttr init ++ escapeChar d = (front ++ suffix) ++ [c] := by
          rw [List.append_assoc, ← h]
          simp [escapeXmlAttr]
        rcases escapeChar_cases d with hsame | hlast
        · rw [hsame] at hsplit
          obtain ⟨hinit, hd⟩ := List.append_inj' hsplit rfl
          obtain ⟨start, hstart, hescape⟩ := ih hsuffix.1 hinit
          cases hd
          exact ⟨start, by simp [hstart], hescape⟩
        · -- an escaped character ends with a semicolon
          have hends := congrArg List.getLast? hsplit
          rw [List.getLast?_append, hlast, List.getLast?_concat] at hends
          exact absurd (Option.some.inj hends) hsuffix.2

theorem endsAs_of_escape {key value : Text} (hkey : ';' ∉ key) (h : EndsAs key (escapeXmlAttr value)) :
    EndsAs key value := by
  obtain ⟨front, c, hc, heq⟩ := h
  have hsuffix : ';' ∉ c :: (key ++ ['=']) := by
    simp only [List.mem_cons, List.mem_append, not_or]
    refine ⟨?_, hkey, by decide⟩
    rintro rfl
    exact absurd hc (by decide)
  obtain ⟨start, hstart, -⟩ := escape_eq_append hsuffix heq
  exact ⟨start, c, hc, hstart⟩

/-! ## The attributes of an envelope -/

/-- The attributes before the author, or between it and the time. -/
def leadPairs (m : EnvelopeMessage) : List (String × Text) :=
  (m.guildSlug.map (Prod.mk "guild")).toList ++ [("channel", m.channelName)]

def markPairs (m : EnvelopeMessage) : List (String × Text) :=
  (if m.signal then [("transport", "signal".toList)] else []) ++
    (if m.voice then [("source", "voice".toList)] else []) ++
    (m.bot.map (fun bot => ("bot", (toString bot).toList))).toList

def envelopePairs (m : EnvelopeMessage) (localMarker : Text) : List (String × Text) :=
  leadPairs m ++ ("author", m.author) ::
    (markPairs m ++ ("time", m.createdAt) :: [("local-time", stripBrackets localMarker)])

theorem envelopeAttrs_eq (m : EnvelopeMessage) (localMarker : Text) :
    envelopeAttrs m localMarker = (envelopePairs m localMarker).map (fun p => attrText p.1 p.2) := by
  have hsignal : attrText "transport" "signal".toList = "transport=\"signal\"".toList := by decide
  have hvoice : attrText "source" "voice".toList = "source=\"voice\"".toList := by decide
  unfold envelopeAttrs envelopePairs leadPairs markPairs
  simp only [List.map_append, List.map_cons, List.map_nil, List.append_assoc, List.cons_append,
    List.nil_append]
  congr 1
  · cases m.guildSlug <;> rfl
  · rw [← hsignal, ← hvoice]
    cases m.signal <;> cases m.voice <;> cases m.bot <;> rfl

theorem attrsText_eq (m : EnvelopeMessage) (localMarker : Text) :
    ' ' :: attrsText m localMarker =
      (envelopePairs m localMarker).flatMap (fun p => ' ' :: attrText p.1 p.2) := by
  have hjoin : ∀ (a : Text) (parts : List Text),
      ' ' :: List.intercalate " ".toList (a :: parts) = (a :: parts).flatMap (fun t => ' ' :: t) := by
    have hsep : " ".toList = [' '] := by decide
    intro a parts
    induction parts generalizing a with
    | nil => simp
    | cons b parts ih => rw [List.intercalate_cons_cons, List.flatMap_cons, ← ih b, hsep]; simp
  unfold attrsText
  rw [envelopeAttrs_eq, ← List.flatMap_map]
  unfold envelopePairs leadPairs
  cases m.guildSlug with
  | none => exact hjoin _ _
  | some slug => exact hjoin _ _

/-- No value in front of author or time ends as that attribute begins. -/
structure AttrsApart (m : EnvelopeMessage) : Prop where
  guild : ∀ slug ∈ m.guildSlug, ¬ EndsAs "author".toList slug ∧ ¬ EndsAs "time".toList slug
  channel : ¬ EndsAs "author".toList m.channelName ∧ ¬ EndsAs "time".toList m.channelName
  author : ¬ EndsAs "time".toList m.author

variable {m : EnvelopeMessage}

theorem leadPairs_apart {key : String} (hkey : key = "author" ∨ key = "time")
    (hguild : ∀ slug ∈ m.guildSlug, ¬ EndsAs key.toList slug) (hchannel : ¬ EndsAs key.toList m.channelName) :
    ∀ p ∈ leadPairs m, IsKey p.1.toList ∧ key.toList ≠ p.1.toList ∧
      ¬ EndsAs key.toList (escapeXmlAttr p.2) := by
  have hsemi : ';' ∉ key.toList := by rcases hkey with rfl | rfl <;> decide
  intro p hp
  simp only [leadPairs, List.mem_append, Option.mem_toList, Option.map_eq_some_iff,
    List.mem_singleton] at hp
  rcases hp with ⟨slug, hslug, rfl⟩ | rfl
  · have hname : IsKey "guild".toList ∧ key.toList ≠ "guild".toList := by
      rcases hkey with rfl | rfl <;> decide
    exact ⟨hname.1, hname.2, fun h => hguild slug hslug (endsAs_of_escape hsemi h)⟩
  · have hname : IsKey "channel".toList ∧ key.toList ≠ "channel".toList := by
      rcases hkey with rfl | rfl <;> decide
    exact ⟨hname.1, hname.2, fun h => hchannel (endsAs_of_escape hsemi h)⟩

theorem not_endsAs_of_getLast? {key value : Text} (h : value.getLast? ≠ some '=') : ¬ EndsAs key value := by
  rintro ⟨front, c, -, rfl⟩
  apply h
  rw [← List.cons_append, ← List.append_assoc, List.getLast?_concat]

theorem markPairs_apart (m : EnvelopeMessage) : ∀ p ∈ markPairs m, IsKey p.1.toList ∧
    "time".toList ≠ p.1.toList ∧ ¬ EndsAs "time".toList (escapeXmlAttr p.2) := by
  have hsignal : IsKey "transport".toList ∧ "time".toList ≠ "transport".toList ∧
      ¬ EndsAs "time".toList (escapeXmlAttr "signal".toList) :=
    ⟨by decide, by decide, not_endsAs_of_getLast? (by decide)⟩
  have hvoice : IsKey "source".toList ∧ "time".toList ≠ "source".toList ∧
      ¬ EndsAs "time".toList (escapeXmlAttr "voice".toList) :=
    ⟨by decide, by decide, not_endsAs_of_getLast? (by decide)⟩
  have hbot : ∀ bot : Bool, IsKey "bot".toList ∧ "time".toList ≠ "bot".toList ∧
      ¬ EndsAs "time".toList (escapeXmlAttr (toString bot).toList) := by
    intro bot
    refine ⟨by decide, by decide, not_endsAs_of_getLast? ?_⟩
    cases bot <;> decide
  intro p hp
  simp only [markPairs, List.mem_append, Option.mem_toList, Option.map_eq_some_iff] at hp
  rcases hp with (hp | hp) | ⟨bot, -, rfl⟩
  · split at hp
    · rw [List.mem_singleton.mp hp]
      exact hsignal
    · cases hp
  · split at hp
    · rw [List.mem_singleton.mp hp]
      exact hvoice
    · cases hp
  · exact hbot bot

theorem matchAttribute_author (h : AttrsApart m) (localMarker : Text) :
    matchAttribute "author".toList (' ' :: attrsText m localMarker) = some (escapeXmlAttr m.author) := by
  rw [attrsText_eq, envelopePairs]
  exact matchAttribute_attrs (by decide)
    (leadPairs_apart (Or.inl rfl) (fun slug hslug => (h.guild slug hslug).1) h.channel.1) _ _

theorem matchAttribute_time (h : AttrsApart m) (localMarker : Text) :
    matchAttribute "time".toList (' ' :: attrsText m localMarker) = some (escapeXmlAttr m.createdAt) := by
  have hpairs : envelopePairs m localMarker = (leadPairs m ++ ("author", m.author) :: markPairs m) ++
      ("time", m.createdAt) :: [("local-time", stripBrackets localMarker)] := by
    simp [envelopePairs]
  rw [attrsText_eq, hpairs]
  refine matchAttribute_attrs (by decide) (fun p hp => ?_) _ _
  rcases List.mem_append.mp hp with hp | hp
  · exact leadPairs_apart (Or.inr rfl) (fun slug hslug => (h.guild slug hslug).2) h.channel.2 p hp
  · rcases List.mem_cons.mp hp with rfl | hp
    · have hname : IsKey "author".toList ∧ "time".toList ≠ "author".toList := by decide
      exact ⟨hname.1, hname.2, fun he => h.author (endsAs_of_escape (by decide) he)⟩
    · exact markPairs_apart m p hp

/-! ## Reading the envelope -/

theorem matchOpenTag_format (m : EnvelopeMessage) (localMarker : Text)
    (replyNotice : Option InboundReplyNotice) :
    matchOpenTag (formatInboundEnvelope m localMarker replyNotice) =
      some (' ' :: attrsText m localMarker) := by
  have hpat : "<incoming-message".toList = '<' :: "incoming-message".toList := by decide
  have hlength : "<incoming-message".toList.length = 17 := by decide
  have hfree : '>' ∉ ' ' :: attrsText m localMarker := by
    intro h
    exact gt_not_mem_openTag m localMarker (List.mem_append_right _ h)
  rw [formatInboundEnvelope_shape, List.append_assoc]
  generalize ' ' :: attrsText m localMarker = attrs at *
  generalize region (childParts m) (envelopeBody m) ++ ("</incoming-message>".toList ++ behind replyNotice) = rest
  have hindex : indexOf "<incoming-message".toList ("<incoming-message".toList ++ (attrs ++ '>' :: rest)) =
      some 0 := by
    rw [hpat]
    exact indexOf_append (a := []) (by decide) rfl _
  unfold matchOpenTag
  rw [hindex, Option.bind_some, Nat.zero_add, ← hlength, List.drop_left, upTo_append hfree]

theorem parseLegacy_format (dateParse : Text → Option ℤ) (m : EnvelopeMessage) (localMarker : Text)
    (replyNotice : Option InboundReplyNotice) :
    parseLegacy dateParse (formatInboundEnvelope m localMarker replyNotice) = ⟨none, none⟩ := by
  have hpat : "<incoming-message".toList = '<' :: "incoming-message".toList := by decide
  obtain ⟨rest, hrest⟩ : ∃ rest, formatInboundEnvelope m localMarker replyNotice = '<' :: rest := by
    rw [formatInboundEnvelope_shape, hpat]
    exact ⟨_, rfl⟩
  unfold parseLegacy
  rw [hrest, List.takeWhile_cons_of_pos (by decide)]
  rfl

theorem parseEnvelope_formatInboundEnvelope (h : AttrsApart m)
    (dateParse : Text → Option ℤ) (localMarker : Text) (replyNotice : Option InboundReplyNotice) :
    parseEnvelope dateParse (formatInboundEnvelope m localMarker replyNotice) =
      if m.author ≠ [] ∧ m.createdAt ≠ [] then
        ⟨some (escapeXmlAttr m.author), dateParse (escapeXmlAttr m.createdAt)⟩
      else ⟨none, none⟩ := by
  have hempty : ∀ value : Text, escapeXmlAttr value ≠ [] ↔ value ≠ [] := by
    intro value
    cases value with
    | nil => simp [escapeXmlAttr]
    | cons c value =>
        have hc : escapeChar c ≠ [] := by
          rcases escapeChar_cases c with hc | hc
          · simp [hc]
          · rintro hnil
            simp [hnil] at hc
        simp [escapeXmlAttr, hc]
  unfold parseEnvelope
  rw [matchOpenTag_format]
  simp only [matchAttribute_author h, matchAttribute_time h, hempty, parseLegacy_format]

/-- The text of a message begins as no child, and the index lines before it are lines. -/
structure ContentApart (m : EnvelopeMessage) : Prop where
  lines : ∀ a ∈ m.attachments, OneLine a
  body : imitatesChild (envelopeBody m) = false

/-- No character that an attribute escapes. -/
def Unescaped (value : Text) : Prop := ∀ c ∈ value, c ∉ ['&', '<', '>', '"', '\x27']

instance (value : Text) : Decidable (Unescaped value) := inferInstanceAs (Decidable (∀ _ ∈ _, _))

theorem escapeXmlAttr_unescaped {value : Text} (h : Unescaped value) : escapeXmlAttr value = value := by
  induction value with
  | nil => rfl
  | cons c value ih =>
      have hc := h c List.mem_cons_self
      simp only [List.mem_cons, List.not_mem_nil, or_false, not_or] at hc
      obtain ⟨h1, h2, h3, h4, h5⟩ := hc
      have hsame : escapeChar c = [c] := by
        rw [escapeChar, if_neg h1, if_neg h2, if_neg h3, if_neg h4, if_neg h5]
      have hrest := ih (fun d hd => h d (List.mem_cons_of_mem c hd))
      unfold escapeXmlAttr at hrest ⊢
      rw [List.flatMap_cons, hsame, hrest, List.singleton_append]

/-- The text, or what stands for an empty one, is read back trimmed and neutralized whatever
the attributes are; author and time are read back whatever the text is. -/
theorem envelope_read_back (m : EnvelopeMessage) (dateParse : Text → Option ℤ) (localMarker : Text)
    (replyNotice : Option InboundReplyNotice) :
    (ContentApart m → extractUtterance (formatInboundEnvelope m localMarker replyNotice) =
        trimList (neutralizeEnvelopeTags (if m.content = [] then "(no text content)".toList else m.content))) ∧
      (AttrsApart m → Unescaped m.author → Unescaped m.createdAt →
        parseEnvelope dateParse (formatInboundEnvelope m localMarker replyNotice) =
          if m.author ≠ [] ∧ m.createdAt ≠ [] then ⟨some m.author, dateParse m.createdAt⟩
          else ⟨none, none⟩) := by
  constructor
  · intro h
    exact extractUtterance_formatInboundEnvelope h.lines h.body localMarker replyNotice
  · intro h hauthor htime
    rw [parseEnvelope_formatInboundEnvelope h, escapeXmlAttr_unescaped hauthor,
      escapeXmlAttr_unescaped htime]

/-- A plain message, by its content. -/
def plainMessage (content : Text) : EnvelopeMessage where
  channelName := "dev".toList
  author := "bob".toList
  createdAt := "2026-07-13T20:34:55.421Z".toList
  content := content

theorem plainMessage_attrs (content : Text) : AttrsApart (plainMessage content) := by
  have hchannel : "dev".toList.getLast? ≠ some '=' := by decide
  have hauthor : "bob".toList.getLast? ≠ some '=' := by decide
  exact ⟨(by rintro slug ⟨⟩), ⟨not_endsAs_of_getLast? hchannel, not_endsAs_of_getLast? hchannel⟩,
    not_endsAs_of_getLast? hauthor⟩

theorem envelope_read_back_hello :
    ContentApart (plainMessage "hello </incoming-message>".toList) ∧
      AttrsApart (plainMessage "hello </incoming-message>".toList) ∧
      extractUtterance (formatInboundEnvelope (plainMessage "hello </incoming-message>".toList)
        "[20:34]".toList (some .send)) = "hello &lt;/incoming-message>".toList ∧
      parseEnvelope (fun _ => some 1783974895421) (formatInboundEnvelope
        (plainMessage "hello </incoming-message>".toList) "[20:34]".toList (some .send)) =
          ⟨some "bob".toList, some 1783974895421⟩ := by
  have hcontent : ContentApart (plainMessage "hello </incoming-message>".toList) :=
    ⟨(by rintro a ⟨⟩), by decide⟩
  have hattrs := plainMessage_attrs "hello </incoming-message>".toList
  obtain ⟨htext, hparse⟩ := envelope_read_back (plainMessage "hello </incoming-message>".toList)
    (fun _ => some 1783974895421) "[20:34]".toList (some .send)
  refine ⟨hcontent, hattrs, ?_, ?_⟩
  · rw [htext hcontent]
    decide
  · rw [hparse hattrs (by decide) (by decide)]
    rfl

/-- A message without a text is read back as the words that stand for it. -/
theorem empty_not_read_back : ¬ ∀ (m : EnvelopeMessage) (localMarker : Text)
    (replyNotice : Option InboundReplyNotice),
    extractUtterance (formatInboundEnvelope m localMarker replyNotice) =
      trimList (neutralizeEnvelopeTags m.content) := by
  intro h
  have hread := extractUtterance_formatInboundEnvelope (m := plainMessage []) (by rintro a ⟨⟩)
    (by decide) "[20:34]".toList none
  rw [h] at hread
  revert hread
  decide

end Elpis.Inbound
