import Stagecraft.Proofs.Saved.Document
import Stagecraft.Proofs.Schedule.Uniqueness

/-!
# Loading what was exported

A world can be exported at any time, and what scripts have computed by then goes into the file. The
text of the file is read as the project that was exported if every number in it is read as it was
written. Two kinds of numbers are not: one that is not finite is written as `null`, and then nothing
is read; one whose digits do not fit into a double is read as a neighbour of it.

Writing and reading a project agree on everything but its numbers, and whether a number is read as
it was written is up to the text that is printed for it. So a project with finite numbers, each of
which is read as it was printed, is read as it was: every record with the members that were left
out, every input and value as what it was, every text character by character and every table in
its order.

* `SavedProject.isSome_parse?_text` : which texts are read at all;
* `SavedProject.parse?_text_eq_some_iff` : which texts are read as they were written;
* `World.reload_of_export` : **what an export is read as**;
* `World.lost_of_export_quotient` : two runs whose exports are not read as they were;
* `Json.reread?_of_isSome` : a finite number is read as the text that is printed for it;
* `SavedProject.reread_of_finite` : **a project is read as it was written**.
-/

namespace Stagecraft

namespace SavedProject

variable (p : SavedProject)

/-- The text of a project is read if its numbers are. -/
theorem isSome_parse?_text :
    (parse? p.text).isSome ↔ ∀ x ∈ p.numbers, (Json.reread? x).isSome := by
  rw [parse?_text, transcribes_project.isSome_iff]

/-- The text of a project is read as it was written if its numbers are. -/
theorem parse?_text_eq_some_iff :
    parse? p.text = some p ↔ ∀ x ∈ p.numbers, Json.reread? x = some x := by
  rw [parse?_text, transcribes_project.eq_some_iff]

variable {p} in
/-- A project with a number that is not finite is not read. -/
theorem parse?_text_eq_none {x : Float} (hx : x ∈ p.numbers) (hfinite : Double.ofFloat? x = none) :
    parse? p.text = none := by
  rw [← Option.not_isSome_iff_eq_none, isSome_parse?_text]
  intro h
  have hread := h x hx
  rw [Json.reread?_eq_none hfinite] at hread
  cases hread

end SavedProject

namespace World

variable {σ : Type}

/-- **What an export is read as.** Whatever has been computed in a world, the text of its project is
read if each of its numbers is read as a number after it was written: those of variables, lists and
blocks and the places of actors and blocks. It is read as the project itself if each number is read
as it was. There is no reading it if a number is not finite. -/
theorem reload_of_export (w : World σ) :
    ((SavedProject.parse? w.toProject.text).isSome ↔
        ∀ x ∈ w.toProject.numbers, (Json.reread? x).isSome) ∧
      (SavedProject.parse? w.toProject.text = some w.toProject ↔
        ∀ x ∈ w.toProject.numbers, Json.reread? x = some x) ∧
      ∀ x ∈ w.toProject.numbers, Double.ofFloat? x = none →
        SavedProject.parse? w.toProject.text = none :=
  ⟨w.toProject.isSome_parse?_text, w.toProject.parse?_text_eq_some_iff,
    fun _ => SavedProject.parse?_text_eq_none⟩

/-- A sprite that divides two numbers when the green flag is clicked. -/
def quotient (n d : Float) : SavedProject where
  targets :=
    [{ name := "Cat"
       isStage := false
       vars := .ofList [("n", ⟨"n", .number 0.0, false⟩)]
       lists := .empty
       blocks := .ofList
         [("hat", ⟨"event_whenflagclicked", some "set", none, .empty, .empty, none, false, true,
            0.0, 0.0⟩),
          ("set", ⟨"data_setvariableto", none, some "hat", .ofList [("VALUE", .reporter "divide")],
            .ofList [("VARIABLE", ⟨"n", some "n"⟩)], none, false, false, 0.0, 0.0⟩),
          ("divide", ⟨"operator_divide", none, some "set",
            .ofList [("NUM1", .literal (.number n)), ("NUM2", .literal (.number d))], .empty, none,
            false, false, 0.0, 0.0⟩)]
       x := 0.0
       y := 0.0
       visible := true }]

/-- The world after the sprite has divided. -/
def divided (n d : Float) : Option (World Unit) :=
  (blank .standard ()).play [.load (quotient n d), .greenFlag, .step 5]

theorem numbers_divided : ∀ e ∈ [(1.0, 4.0), (1.0, 0.0), (1.0, 11.0)],
    (divided e.1 e.2).map (fun w => w.toProject.numbers) =
      some [e.1 / e.2, 0.0, 0.0, 0.0, 0.0, e.1, e.2, 0.0, 0.0, 0.0, 0.0] := by
  decide +kernel

/-- A quarter is read as it was, and what is left of an infinite quotient is not read. -/
theorem reload_of_export_quotient :
    (∃ w, divided 1.0 4.0 = some w ∧ (∀ x ∈ w.toProject.numbers, Json.reread? x = some x) ∧
        SavedProject.parse? w.toProject.text = some w.toProject) ∧
      ∃ w, divided 1.0 0.0 = some w ∧ 1.0 / 0.0 ∈ w.toProject.numbers ∧
        Double.ofFloat? (1.0 / 0.0) = none ∧ SavedProject.parse? w.toProject.text = none := by
  obtain ⟨w, hw, hnumbers⟩ := Option.map_eq_some_iff.1 (numbers_divided (1.0, 4.0) (by simp))
  obtain ⟨w', hw', hnumbers'⟩ := Option.map_eq_some_iff.1 (numbers_divided (1.0, 0.0) (by simp))
  have hback : ∀ x ∈ w.toProject.numbers, Json.reread? x = some x := by
    rw [hnumbers]
    decide +kernel
  have hinfinite : 1.0 / 0.0 ∈ w'.toProject.numbers := by
    rw [hnumbers']
    exact List.mem_cons_self
  have hnone : Double.ofFloat? (1.0 / 0.0) = none := by decide +kernel
  exact ⟨⟨w, hw, hback, (reload_of_export w).2.1.2 hback⟩,
    w', hw', hinfinite, hnone, (reload_of_export w').2.2 _ hinfinite hnone⟩

/-- What is exported after a division by zero is not read, and an eleventh is read as another
number. -/
theorem lost_of_export_quotient :
    (∃ w, divided 1.0 0.0 = some w ∧ SavedProject.parse? w.toProject.text = none) ∧
      ∃ w, divided 1.0 11.0 = some w ∧ (SavedProject.parse? w.toProject.text).isSome ∧
        SavedProject.parse? w.toProject.text ≠ some w.toProject := by
  obtain ⟨w, hw, hnumbers⟩ := Option.map_eq_some_iff.1 (numbers_divided (1.0, 0.0) (by simp))
  obtain ⟨w', hw', hnumbers'⟩ := Option.map_eq_some_iff.1 (numbers_divided (1.0, 11.0) (by simp))
  refine ⟨⟨w, hw, SavedProject.parse?_text_eq_none (x := 1.0 / 0.0) ?_ (by decide +kernel)⟩,
    w', hw', ?_, ?_⟩
  · rw [hnumbers]
    exact List.mem_cons_self
  · rw [SavedProject.isSome_parse?_text, hnumbers']
    decide +kernel
  · rw [Ne, SavedProject.parse?_text_eq_some_iff, hnumbers']
    decide +kernel

end World

/-! ### The text of a project -/

/-- A finite number is read as the text that is printed for it. -/
theorem Json.reread?_of_isSome {x : Float} (h : (Double.ofFloat? x).isSome) :
    Json.reread? x = Json.worth? (Json.numberLayout.render x) := by
  obtain ⟨d, hd⟩ := Option.isSome_iff_exists.1 h
  rw [Json.reread?, Json.ofFloat, hd]
  rfl

namespace SavedProject

/-- **A project is read as it was written.** Let all numbers of a project be finite and the text
that is printed for each of them be worth that number. Then, whatever its texts are and however
much of it there is, reading its text succeeds and gives the project, each table with its rows in
order. -/
theorem reread_of_finite (p : SavedProject)
    (hfinite : ∀ x ∈ p.numbers, (Double.ofFloat? x).isSome)
    (hprint : ∀ x ∈ p.numbers, (Double.ofFloat? x).isSome →
      Json.worth? (Json.numberLayout.render x) = some x) :
    parse? p.text = some p := by
  refine p.parse?_text_eq_some_iff.2 fun x hx => ?_
  rw [Json.reread?_of_isSome (hfinite x hx)]
  exact hprint x hx (hfinite x hx)

/-- A text with quotes, a backslash, control characters and characters of one to four bytes. -/
def scrawl : String := "\"\\\n\t\r\x00\x1f\x7f/ é 日本 😀"

/-- A block with all that a block can have. -/
def ornate : SavedBlock where
  opcode := scrawl
  next := some scrawl
  parent := some ""
  inputs := .ofList
    [("Z", .literal (.number (-0.0))), (scrawl, .literal (.text "null")), ("A", .reporter "true"),
      ("SUBSTACK", .branch scrawl), ("B", .literal (.flag false))]
  fields := .ofList [("VARIABLE", ⟨scrawl, some "1.5"⟩), ("MODE", ⟨"", none⟩)]
  signature := some ⟨scrawl, ["b", "a"], ["", scrawl], ["[]"], true⟩
  shadow := true
  topLevel := true
  x := 1e300
  y := -12.5

/-- A stage with nothing in it, and a sprite with all that an actor can have. -/
def album : SavedProject where
  targets :=
    [{ name := "", isStage := true, vars := .empty, lists := .empty, blocks := .empty, x := 0.0,
       y := 0.0, visible := true },
      { name := scrawl
        isStage := false
        vars := .ofList
          [("z", ⟨scrawl, .number 0.1, true⟩), ("a", ⟨"1", .text "1", false⟩),
            (scrawl, ⟨"", .flag true, false⟩)]
        lists := .ofList
          [("y", ⟨"", [.number 9007199254740993.0, .text scrawl, .flag false]⟩),
            ("b", ⟨scrawl, []⟩)]
        blocks := .ofList
          [("second", ornate),
            ("first", { ornate with
              next := none, parent := none, inputs := .empty, signature := none, shadow := false,
              topLevel := false })]
        x := 0.25
        y := -3e-7
        visible := false }]

/-- Everything in the album comes back, in its order. -/
theorem reread_of_finite_album :
    (∀ x ∈ album.numbers, (Double.ofFloat? x).isSome) ∧
      (∀ x ∈ album.numbers, (Double.ofFloat? x).isSome →
        Json.worth? (Json.numberLayout.render x) = some x) ∧
      parse? album.text = some album := by
  have hfinite : ∀ x ∈ album.numbers, (Double.ofFloat? x).isSome := by decide +kernel
  have hprint : ∀ x ∈ album.numbers, (Double.ofFloat? x).isSome →
      Json.worth? (Json.numberLayout.render x) = some x := by decide +kernel
  exact ⟨hfinite, hprint, reread_of_finite album hfinite hprint⟩

end SavedProject

end Stagecraft
