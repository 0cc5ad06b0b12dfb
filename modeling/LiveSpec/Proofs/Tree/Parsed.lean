import LiveSpec.Proofs.Tree.Fronting

/-!
# What is known of a document that was read

The rules that read a document supply what is missing, move what is misplaced, and cover a part of
the language. What the other modules know of their results is `Parsed`, and nothing else: the tree
is sound, its links and lists of children agree, nothing in it is cut off, and the head comes first.
Rules that read more, or read it otherwise, have to keep these facts alone (`parsed_read`).
-/

namespace LiveSpec.Markup.Tree

/-- What holds of the tree of each document that was read. -/
structure Parsed (t : Tree) : Prop where
  sound : t.Sound
  /-- Links and lists of children agree for all nodes. -/
  linked : t.Linked fun _ => False
  uncut (n : NodeId) : (t.node n).link ≠ .cut
  /-- The outermost element is named `html`, and its head is spelled without a mark. -/
  fronted {r : NodeId} : t.root = .ok r →
    t.name r = "html" ∧ ∀ h, t.firstChild? r "head" = .ok (some h) → t.name h = "head"

/-- **All that is known of reading.** -/
theorem parsed_read (html : String) : (Tree.read html).Parsed :=
  ⟨sound_read html, linked_read html, link_read_ne_cut html, fronted_read⟩

theorem Parsed.coherent {t : Tree} (h : t.Parsed) : t.Coherent := h.sound.toCoherent

end LiveSpec.Markup.Tree
