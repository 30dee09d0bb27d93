/-
Conditionals.Proofs.Reader.Concatenation — files put together and put inside a
block.

* `LineSource.result_append` — a file in front of which stands one that is
  read comes to what it comes to alone, on later lines;
* `LineSource.result_enclosed` — a file that is read becomes the inside of a
  block if an opening and a closing directive stand around it.

`LineSource.readBlocks_append_and_enclose` is the main statement.
-/
import Conditionals.Proofs.Reader.Outcome
import Conditionals.Proofs.Reader.Renumbering
import Conditionals.Proofs.Reader.Writing

namespace Conditionals

/-! ## Events on later lines -/

namespace Event

theorem ofLine_renumber (r : Int → Int) (line : Int) (text : String) :
    ofLine (r line) text = (ofLine line text).map (renumber r) := by
  unfold ofLine
  cases Directive.classify text with
  | none => rfl
  | some found =>
    obtain ⟨d, payload⟩ := found
    simp only [ofDirective]
    split
    · rfl
    · split <;> rfl

/-- Behind more lines the events are the same, on later lines. -/
theorem ofLinesFrom_add (number count : Nat) (lines : List String) :
    ofLinesFrom (number + count) lines =
      (ofLinesFrom number lines).map (renumber fun line => line + count) := by
  induction lines generalizing number with
  | nil => rfl
  | cons text lines ih =>
    have hline := ofLine_renumber (fun line => line + count) number text
    rw [← Int.natCast_add] at hline
    rw [ofLinesFrom_cons, ofLinesFrom_cons, hline, List.map_append, Nat.add_right_comm, ih]
    cases ofLine number text <;> rfl

/-- The events of a file with a condition above it and a closing directive below. -/
theorem ofLines_enclosed {text : String} {c : Condition} (ht : Text.Trimmed text.toList)
    (hc : Condition.parse text = .ok c) (lines : List String) :
    ofLines (("#if " ++ text) :: lines ++ ["#endif"]) =
      .opening 1 c :: ((ofLines lines).map (renumber fun line => line + 1) ++
        [.closing (lines.length + 2)]) := by
  have hclosing := ofLine_closing ((("#if " ++ text) :: lines).length + 1 : Nat)
  rw [render] at hclosing
  rw [ofLines_concat, hclosing, ofLines, ofLinesFrom_cons, ofLinesFrom_add 1 1]
  rw [show ((1 : Nat) : Int) = 1 from rfl, ofLine_if 1 ht hc]
  simp [ofLines]
  omega

end Event

/-! ## Files put together -/

namespace LineSource

variable {name path : Option String} {lines others : List String} {as : List Block}

/-- What is read last does not see what is read first, except by the numbers of its lines. -/
theorem result_append (h : ((ofLines name lines).readBlocks path).result = .ok as) :
    ((ofLines name (lines ++ others)).readBlocks path).result =
      (((ofLines name others).readBlocks path).result.map fun bs =>
        as ++ Block.renumberAll (fun line => line + lines.length) bs).mapError
          (ReadError.renumber fun line => line + lines.length) := by
  obtain ⟨-, s, hs, hn, rfl⟩ := read_eq_ok_iff.1 h
  have hs : (Session.start (path <|> name) .empty).readLines 1 lines = (.ok (), s) := hs
  have hreachable : Session.Reachable (path <|> name)
      ((Session.start (path <|> name) .empty).readLines 1 lines).2 :=
    Session.Reachable.readLines (.start .empty) 1 lines
  rw [hs] at hreachable
  have hpath : s.path = (path <|> name) := hreachable.composed.path_eq
  have hstart := Session.follows_start hpath hn (fun line => line + lines.length) .empty
  have hnumbers : ∀ i : Nat, (1 + i + lines.length : Int) = (1 + lines.length : Nat) + i := by
    intro i
    omega
  have hfollows := hstart.readLines_same hnumbers others
  rw [result_ofLines, result_ofLines, Session.readLines_append_of_ok _ hs]
  exact hfollows.conclude

/-! ## Files inside a block -/

/-- A file of two more lines, the first with a condition, is one block around the blocks of the
file. -/
theorem result_enclosed {text : String} {c : Condition}
    (h : ((ofLines name lines).readBlocks path).result = .ok as)
    (ht : Text.Trimmed text.toList) (hc : Condition.parse text = .ok c) :
    ((ofLines name (("#if " ++ text) :: lines ++ ["#endif"])).readBlocks path).result =
      .ok [⟨1, lines.length + 2, path <|> name, c, c,
        Block.rebaseAll [c] (Block.renumberAll (fun line => line + 1) as)⟩] := by
  obtain ⟨hbalanced, hlisting, hcomposed⟩ := listing_of_read h
  refine result_of_listing ?_ ?_ ?_
  · intro line hline
    rw [List.cons_append, List.mem_cons, List.mem_append, List.mem_singleton] at hline
    rcases hline with rfl | hline | rfl
    · exact Event.readable_of_ofLine (Event.ofLine_if 1 ht hc)
    · exact hbalanced.readable line hline
    · exact Event.readable_of_ofLine (Event.ofLine_closing 1)
  · rw [Event.ofLines_enclosed ht hc, Block.listingAll_singleton, Block.listing_eq,
      Block.listingAll_rebaseAll, Block.listingAll_renumberAll, hlisting]
    rfl
  · exact .cons rfl rfl ((hcomposed.renumberAll _).rebaseAll [c]) .nil

/-- Behind a file that is read, a file comes to what it comes to alone, on lines that are later by
the length of the first one: its blocks stand behind those of the first file, and its error is the
same. With a condition above a file that is read and the closing directive below, its blocks are
those inside one block, their presence conditions standing on the condition. -/
theorem readBlocks_append_and_enclose (name path : Option String) (lines : List String)
    (as : List Block) (h : ((ofLines name lines).readBlocks path).result = .ok as) :
    (∀ others, ((ofLines name (lines ++ others)).readBlocks path).result =
      (((ofLines name others).readBlocks path).result.map fun bs =>
        as ++ Block.renumberAll (fun line => line + lines.length) bs).mapError
          (ReadError.renumber fun line => line + lines.length)) ∧
    (∀ text c, Text.Trimmed text.toList → Condition.parse text = .ok c →
      ((ofLines name (("#if " ++ text) :: lines ++ ["#endif"])).readBlocks path).result =
        .ok [⟨1, lines.length + 2, path <|> name, c, c,
          Block.rebaseAll [c] (Block.renumberAll (fun line => line + 1) as)⟩]) :=
  ⟨fun _ => result_append h, fun _ _ ht hc => result_enclosed h ht hc⟩

/-- A closing directive too many behind one block, and the block inside another one. -/
theorem readBlocks_append_and_enclose_one :
    let a : Condition := .atom (.defined "A")
    let b : Condition := .neg (.atom (.bare "B"))
    ((ofLines none ["#ifdef A", "#endif"]).readBlocks none).result =
      .ok [⟨1, 2, none, a, a, []⟩] ∧
    ((ofLines none ["#ifdef A", "#endif", "", "#endif"]).readBlocks none).result =
      .error (.unbalanced 4) ∧
    ((ofLines none ["#if !B", "#ifdef A", "#endif", "#endif"]).readBlocks none).result =
      .ok [⟨1, 4, none, b, b, [⟨2, 3, none, a, .conj b a, []⟩]⟩] := by
  intro a b
  have hopening : Event.ofLine 1 "#ifdef A" = some (.opening 1 a) := by decide +kernel
  have hclosing : Event.ofLine 2 "#endif" = some (.closing 2) := by decide +kernel
  have hread : ((ofLines none ["#ifdef A", "#endif"]).readBlocks none).result =
      .ok [⟨1, 2, none, a, a, []⟩] := by
    refine result_of_listing ?_ (by decide +kernel) (.cons rfl rfl .nil .nil)
    intro text htext
    simp only [List.mem_cons, List.not_mem_nil, or_false] at htext
    rcases htext with rfl | rfl
    · exact Event.readable_of_ofLine hopening
    · exact Event.readable_of_ofLine hclosing
  obtain ⟨happend, henclose⟩ := readBlocks_append_and_enclose none none _ _ hread
  refine ⟨hread, happend ["", "#endif"], henclose "!B" b ?_ (by decide +kernel)⟩
  exact ⟨by decide, by decide⟩

end LineSource

end Conditionals
