import SymbianWeb.WidgetRegistry.RegistryXml

/-!
# The text of a subtree, read again

The text that `GetTextContentAsStringL` writes for a list of subtrees is content of XML again. What
it is the content of (`reread`) has no comments, and text that was divided by a comment is in one
piece; its elements and its characters are those of the subtrees (`getTextContentAsStringL_reads`).

`comment` stands for all kinds of nodes that are passed over. The name of an element is that of its
node, and attributes are not written.
-/

set_option autoImplicit false

namespace SymbianWeb.WidgetRegistry

open XmlContent

/-! ## The table of entity lengths -/

/-- The characters that are replaced, and the lengths of what they are replaced by. -/
def kEntity : Text := [34, 38, 13, 60, 62]

def entityLength : List Nat := [6, 5, 5, 4, 4]

/-- The length of a character is that of the table, at the position of the character. -/
theorem encodedSize_eq (c : UInt16) :
    encodedSize c = match kEntity.findIdx? (· == c) with
      | some i => entityLength[i]?.getD 0
      | none => utf8Size c := by
  rw [encodedSize]
  split_ifs with hquot hamp hcr hlt hgt
  · subst hquot; rfl
  · subst hamp; rfl
  · subst hcr; rfl
  · subst hlt; rfl
  · subst hgt; rfl
  · have hnone : kEntity.findIdx? (· == c) = none := by
      rw [List.findIdx?_eq_none_iff]
      intro d hd
      simp only [kEntity, List.mem_cons, List.not_mem_nil, or_false] at hd
      rcases hd with rfl | rfl | rfl | rfl | rfl
      · simpa using Ne.symm hquot
      · simpa using Ne.symm hamp
      · simpa using Ne.symm hcr
      · simpa using Ne.symm hlt
      · simpa using Ne.symm hgt
    rw [hnone]

/-! ## Elements and characters -/

/-- What content consists of: characters and elements. -/
inductive Piece where
  | char (c : UInt16)
  | element (name : Text) (content : List Piece)

mutual

def nodePieces : XmlNode → List Piece
  | .element name nodes => [.element name (pieces nodes)]
  | .text content => content.map .char
  | .cdata content => content.map .char
  | .comment _ => []

/-- The elements and the characters of a list of subtrees. -/
def pieces : List XmlNode → List Piece
  | [] => []
  | node :: nodes => nodePieces node ++ pieces nodes

end

/-! ## Trees that a parser gives -/

mutual

def ParsedNode (named : Text → Bool) : XmlNode → Prop
  | .element name nodes => named name = true ∧ Parsed named nodes
  | .text content => isXmlText content = true
  | .cdata content => isXmlText content = true ∧ 13 ∉ content ∧ ¬ lit "]]>" <:+: content
  | .comment _ => True

/-- Names are names, all characters are those of XML, and a CDATA section neither has its end mark
inside nor a carriage return, which a parser takes for the end of a line. -/
def Parsed (named : Text → Bool) : List XmlNode → Prop
  | [] => True
  | node :: nodes => ParsedNode named node ∧ Parsed named nodes

end

/-- Text in front of other nodes, in one node with the text that is there. -/
def joinText (content : Text) (nodes : List XmlNode) : List XmlNode :=
  if content = [] then nodes
  else
    match nodes with
    | .text content' :: nodes => .text (content ++ content') :: nodes
    | nodes => .text content :: nodes

mutual

def rereadNode : XmlNode → List XmlNode → List XmlNode
  | .element name nodes, rest => .element name (reread nodes) :: rest
  | .text content, rest => joinText content rest
  | .cdata content, rest => .cdata content :: rest
  | .comment _, rest => rest

/-- The subtrees without comments, and with text in one piece. -/
def reread : List XmlNode → List XmlNode
  | [] => []
  | node :: nodes => rereadNode node (reread nodes)

end

theorem pieces_joinText (content : Text) (nodes : List XmlNode) :
    pieces (joinText content nodes) = content.map .char ++ pieces nodes := by
  unfold joinText
  split
  · rename_i hnil
    rw [hnil]
    rfl
  · split
    · simp only [pieces, nodePieces, List.map_append, List.append_assoc]
    · rfl

mutual

theorem pieces_rereadNode : ∀ (node : XmlNode) (rest : List XmlNode),
    pieces (rereadNode node rest) = nodePieces node ++ pieces rest
  | .element name nodes, rest => by
    rw [rereadNode, pieces, nodePieces, pieces_reread nodes, nodePieces]
  | .text content, rest => by rw [rereadNode, pieces_joinText, nodePieces]
  | .cdata content, rest => by rw [rereadNode, pieces]
  | .comment _, rest => by rw [rereadNode, nodePieces, List.nil_append]

/-- Elements and characters stay. -/
theorem pieces_reread : ∀ nodes : List XmlNode, pieces (reread nodes) = pieces nodes
  | [] => by rw [reread]
  | node :: nodes => by rw [reread, pieces_rereadNode, pieces_reread nodes, pieces]

end

/-! ## Text that is written -/

/-- The characters of XML, one after the other. -/
theorem isXmlText_append (a : Text) : ∀ {b : Text}, isXmlText a = true → isXmlText b = true →
    isXmlText (a ++ b) = true := by
  induction a using isXmlText.induct with
  | case1 => exact fun _ hb => hb
  | case2 c =>
    intro b ha hb
    cases b with
    | nil => exact ha
    | cons d rest =>
      have hplain : ¬ (0xD800 ≤ c ∧ c < 0xDC00) := by
        rintro ⟨hlow, hhigh⟩
        simp only [isXmlText, Bool.or_eq_true, Bool.and_eq_true, decide_eq_true_eq] at ha
        have hle := UInt16.le_iff_toNat_le.1 hlow
        have hlt := UInt16.lt_iff_toNat_lt.1 hhigh
        rcases ha with (((rfl | rfl) | rfl) | ⟨-, h⟩) | ⟨h, -⟩
        · exact absurd hle (by decide)
        · exact absurd hle (by decide)
        · exact absurd hle (by decide)
        · exact absurd (UInt16.lt_iff_toNat_lt.1 h) (Nat.not_lt.2 hle)
        · have hge := UInt16.le_iff_toNat_le.1 h
          change 0xE000 ≤ c.toNat at hge
          change c.toNat < 0xDC00 at hlt
          omega
      show isXmlText (c :: d :: rest) = true
      rw [isXmlText, if_neg hplain, Bool.and_eq_true]
      exact ⟨ha, hb⟩
  | case3 c d rest hpair ih =>
    intro b ha hb
    rw [isXmlText, if_pos hpair, Bool.and_eq_true] at ha
    show isXmlText (c :: d :: (rest ++ b)) = true
    rw [isXmlText, if_pos hpair, Bool.and_eq_true]
    exact ⟨ha.1, ih ha.2 hb⟩
  | case4 c d rest hplain ih =>
    intro b ha hb
    rw [isXmlText, if_neg hplain, Bool.and_eq_true] at ha
    show isXmlText (c :: d :: (rest ++ b)) = true
    rw [isXmlText, if_neg hplain, Bool.and_eq_true]
    exact ⟨ha.1, ih ha.2 hb⟩

/-- What is written for a character is read as the character. -/
theorem charData_encodeSpecial (c : UInt16) {raw content : Text} (h : CharData raw content) :
    CharData (encodeSpecial c ++ raw) (c :: content) := by
  rw [encodeSpecial]
  split_ifs with hlt hgt hamp hquot hcr
  · subst hlt; exact .entity (by decide) h
  · subst hgt; exact .entity (by decide) h
  · subst hamp; exact .entity (by decide) h
  · subst hquot; exact .entity (by decide) h
  · subst hcr; exact .entity (by decide) h
  · exact .plain hlt hamp hcr h

theorem charData_flatMap (t : Text) {raw content : Text} (h : CharData raw content) :
    CharData (t.flatMap encodeSpecial ++ raw) (t ++ content) := by
  induction t with
  | nil => exact h
  | cons c t ih =>
    rw [List.flatMap_cons, List.append_assoc]
    exact charData_encodeSpecial c ih

theorem gt_not_mem_encodeSpecial (c : UInt16) : 62 ∉ encodeSpecial c := by
  rw [encodeSpecial]
  split_ifs with hlt hgt hamp hquot hcr
  · decide
  · decide
  · decide
  · decide
  · decide
  · rw [List.mem_singleton]
    exact Ne.symm hgt

theorem gt_not_mem_flatMap (t : Text) : 62 ∉ t.flatMap encodeSpecial := by
  intro h
  obtain ⟨c, -, hc⟩ := List.mem_flatMap.1 h
  exact gt_not_mem_encodeSpecial c hc

/-- Text without the sign that ends a tag is a text run. -/
theorem textRun_of_gt {raw content : Text} (hdata : CharData raw content) (hne : content ≠ [])
    (hlegal : isXmlText content = true) (hgt : 62 ∉ raw) : TextRun raw content where
  data := hdata
  ne_nil := hne
  legal := hlegal
  noEnd h := hgt (h.subset (by decide))

/-! ## The text is content again -/

/-- Content that text can be put in front of: if it begins with text, that has been written. -/
inductive Joins (named : Text → Bool) : List XmlNode → Text → Prop where
  | behind {nodes : List XmlNode} {raw : Text} : startsWithText nodes = false →
      Markup named nodes raw → Joins named nodes raw
  | text {content raw tail : Text} {nodes : List XmlNode} : TextRun raw content → 62 ∉ raw →
      startsWithText nodes = false → Markup named nodes tail →
      Joins named (.text content :: nodes) (raw ++ tail)

section

variable {named : Text → Bool} {nodes : List XmlNode} {raw : Text}

theorem Joins.markup (h : Joins named nodes raw) : Markup named nodes raw := by
  cases h with
  | behind _ hmarkup => exact hmarkup
  | text hrun _ hnodes hmarkup => exact .text hrun hnodes hmarkup

/-- Text is put in front of content. -/
theorem Joins.joinText {content : Text} (hlegal : isXmlText content = true)
    (h : Joins named nodes raw) :
    Joins named (joinText content nodes) (content.flatMap encodeSpecial ++ raw) := by
  unfold WidgetRegistry.joinText
  split
  · rename_i hnil
    rw [hnil]
    exact h
  · rename_i hne
    cases h with
    | behind hnodes hmarkup =>
      have hrun : TextRun (content.flatMap encodeSpecial) content := by
        have hdata := charData_flatMap content CharData.nil
        rw [List.append_nil, List.append_nil] at hdata
        exact textRun_of_gt hdata hne hlegal (gt_not_mem_flatMap content)
      have hjoins := Joins.text hrun (gt_not_mem_flatMap content) hnodes hmarkup
      split
      · cases hnodes
      · exact hjoins
    | @text content' raw' tail nodes hrun hgt hnodes hmarkup =>
      have hgt' : 62 ∉ content.flatMap encodeSpecial ++ raw' := by
        rw [List.mem_append, not_or]
        exact ⟨gt_not_mem_flatMap content, hgt⟩
      have hne' : content ++ content' ≠ [] := fun hnil => hne (List.append_eq_nil_iff.1 hnil).1
      have hjoined := Joins.text (textRun_of_gt (charData_flatMap content hrun.data) hne'
        (isXmlText_append content hlegal hrun.legal) hgt') hgt' hnodes hmarkup
      rw [List.append_assoc] at hjoined
      exact hjoined

end

section

variable {named : Text → Bool}

mutual

theorem joins_rereadNode : ∀ (node : XmlNode) {rest : List XmlNode} {raw : Text},
    ParsedNode named node → Joins named rest raw →
      Joins named (rereadNode node rest) (nodeText node ++ raw)
  | .element name nodes, rest, raw, hnode, hrest => by
    obtain ⟨hname, hnodes⟩ := hnode
    have helement := Markup.element hname (joins_reread nodes hnodes).markup hrest.markup
    rw [rereadNode, nodeText]
    refine .behind rfl ?_
    have htags : lit "<" ++ name ++ lit ">" = openTag name ∧
        lit "</" ++ name ++ lit ">" = closeTag name := ⟨rfl, rfl⟩
    rw [← htags.1, ← htags.2] at helement
    simpa only [List.append_assoc] using helement
  | .text content, rest, raw, hnode, hrest => by
    rw [rereadNode, nodeText]
    exact hrest.joinText hnode
  | .cdata content, rest, raw, hnode, hrest => by
    obtain ⟨hlegal, hcr, hend⟩ := hnode
    rw [rereadNode, nodeText]
    refine .behind rfl ?_
    have hcdata := Markup.cdata hlegal hcr hend hrest.markup
    simpa only [List.append_assoc] using hcdata
  | .comment _, rest, raw, _, hrest => by
    rw [rereadNode, nodeText]
    exact hrest

theorem joins_reread : ∀ nodes : List XmlNode, Parsed named nodes →
    Joins named (reread nodes) (subtreeText nodes)
  | [], _ => by
    rw [reread, subtreeText]
    exact .behind rfl .nil
  | node :: nodes, hnodes => by
    rw [reread, subtreeText]
    exact joins_rereadNode node hnodes.1 (joins_reread nodes hnodes.2)

end

/-- The buffer that is measured is long enough for the text, and what is read of the text has the
same elements and characters. -/
theorem getTextContentAsStringL_reads (reader : MarkupReader named) (nodes : List XmlNode) :
    (subtreeText nodes).length ≤ subtreeLength nodes ∧
      getTextContentAsStringL nodes = .ok (subtreeText nodes) ∧
      (Parsed named nodes → ∃ nodes', reader.parse (subtreeText nodes) = some nodes' ∧
        pieces nodes' = pieces nodes) := by
  refine ⟨length_subtreeText nodes, getTextContentAsStringL_eq nodes, fun hnodes => ?_⟩
  exact ⟨reread nodes, reader.parse_markup (joins_reread nodes hnodes).markup, pieces_reread nodes⟩

end

/-- A comment between two texts, with characters that are replaced. -/
def dividedText : List XmlNode :=
  [.text (lit "a<b"), .comment (lit "c"), .text (lit "d\r"), .element (lit "e") [.cdata (lit "<")]]

theorem getTextContentAsStringL_reads_divided :
    ∃ nodes', (ContentReader.ofGrammar.markup).parse (subtreeText dividedText) = some nodes' ∧
      pieces nodes' = pieces dividedText :=
  (getTextContentAsStringL_reads ContentReader.ofGrammar.markup dividedText).2.2
    ⟨rfl, trivial, rfl, ⟨rfl, ⟨rfl, by decide, by decide⟩, trivial⟩, trivial⟩

end SymbianWeb.WidgetRegistry
