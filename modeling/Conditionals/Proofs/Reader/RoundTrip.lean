/-
Conditionals.Proofs.Reader.RoundTrip — conditions written down and read
again.

`Condition.parse_render_iff` is the main statement: a condition comes back
from its written form just if it has been read from some text, and just if
its names are such as texts have. What a file is read into consists of such
conditions: those of its directives were read from texts, and presence
conditions are conjunctions of them.
-/
import Conditionals.Proofs.Formula.Printing
import Conditionals.Proofs.Reader.Structure

namespace Conditionals

namespace Condition

/-- All names are such as the texts of conditions have. -/
def Named (f : Condition) : Prop :=
  ∀ a ∈ f.atoms, a.isNamed = true

theorem Named.parse_render {f : Condition} (h : f.Named) : parse f.render = .ok f :=
  parse_eq_ok_iff_says.2 (Formula.says_render h)

theorem named_of_parse {text : String} {f : Condition} (h : parse text = .ok f) : f.Named := by
  obtain ⟨ts, ht, hd⟩ := parse_eq_ok_iff_says.1 h
  exact hd.isNamed_atoms (wellFormed_of_tokens ht)

theorem Named.conj {f g : Condition} (hf : f.Named) (hg : g.Named) : Named (.conj f g) := by
  intro a ha
  rcases List.mem_append.1 ha with ha | ha
  · exact hf a ha
  · exact hg a ha

end Condition

/-! ## Blocks -/

namespace Block

variable {path : Option String} {bs : List Block}

/-- The conditions of blocks that stand on the lines of a file have been read from it. -/
theorem named_condition {lines : List String} (h : listingAll bs = Event.ofLines lines) :
    ∀ b ∈ walkAll bs, b.condition.Named := by
  intro b hb
  have hmem : Event.opening b.startLine b.condition ∈ Event.ofLines lines := by
    rw [← h]
    exact opening_mem_listingAll hb
  obtain ⟨t, ht⟩ := Event.parse_of_opening_mem hmem
  exact Condition.named_of_parse ht

theorem named_presence {lines : List String} (h : listingAll bs = Event.ofLines lines)
    (hc : Composed path none bs) : ∀ b ∈ walkAll bs, b.presence.Named :=
  hc.forall_presence (fun _ _ hf hg => hf.conj hg) nofun (named_condition h)

end Block

/-! ## The round trip -/

/-- A condition comes back from its written form just if it was read from some text, and just if its
names are such as texts have; and both conditions of every block that is read from a file come
back. -/
theorem Condition.parse_render_iff :
    (∀ f : Condition,
      (parse f.render = .ok f ↔ ∃ text, parse text = .ok f) ∧
      ((∃ text, parse text = .ok f) ↔ ∀ a ∈ f.atoms, a.isNamed = true)) ∧
    ∀ (source : LineSource) (path : Option String) (cache : Cache) (forest : List Block),
      (source.read path cache).result = .ok forest →
      ∀ b ∈ Block.walkAll forest,
        parse b.condition.render = .ok b.condition ∧ parse b.presence.render = .ok b.presence := by
  constructor
  · intro f
    have hnamed : (∃ text, parse text = .ok f) → f.Named := by
      rintro ⟨text, h⟩
      exact named_of_parse h
    refine ⟨⟨?_, ?_⟩, hnamed, ?_⟩
    · intro h
      exact ⟨f.render, h⟩
    · intro h
      exact (hnamed h).parse_render
    · intro h
      exact ⟨f.render, Named.parse_render h⟩
  · intro source path cache forest h b hb
    obtain ⟨-, hlisting, hcomposed⟩ := LineSource.listing_of_read h
    exact ⟨(Block.named_condition hlisting b hb).parse_render,
      (Block.named_presence hlisting hcomposed b hb).parse_render⟩

end Conditionals
