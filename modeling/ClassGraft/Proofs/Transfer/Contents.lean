import ClassGraft.Proofs.Layout.Reading
import ClassGraft.Proofs.Transfer.Slots

/-!
# Transferred contents of attributes

Contents of a known layout are transferred exactly when they start with pieces of its shape whose indices can be given
places, and then these pieces are kept with the places in their slots (`TransferM.contents_by_layout`).
-/

namespace ClassGraft.TransferM

open Transfer

variable {source : Pool} {before after : Transfer} {log log' : Log}

/-- Contents that are transferred start with pieces of their shape, and become these pieces with other indices. -/
theorem pieces_of_contents {name : String} {layout : Layout} {info output : Bytes}
    (h : runOn (contents source name layout info) before log = ((.ok output, after), log')) :
    ∃ pieces rest noted, layout.Shape pieces ∧ info = pieces.flatMap Piece.bytes ++ rest ∧
      runOn (constants source (pieces.flatMap Piece.indices)) before log =
        ((.ok ((pieces.flatMap Piece.indices).map after.placeOf), after), noted) ∧
      (∀ index ∈ pieces.flatMap Piece.indices, after.transferred[index]? = some (after.placeOf index)) ∧
      output = (pieces.map (Piece.renamed after.placeOf)).flatMap Piece.bytes := by
  rw [contents] at h
  obtain ⟨⟨bytes, leftOver⟩, between, middle, htemplate, hnote⟩ := runOn_bind_eq_ok h
  have hkept : bytes = output ∧ between = after := by
    cases leftOver <;> cases hnote <;> exact ⟨rfl, rfl⟩
  obtain ⟨rfl, rfl⟩ := hkept
  obtain ⟨parts, hparts, houtcome, rfl⟩ := runOn_template_eq_ok htemplate
  obtain ⟨hconstants, htransferred, -, hbytes⟩ := constants_of_pieces hparts
  have hread : layout.template info = ⟨(layout.template info).pieces, .ok leftOver⟩ := by rw [← houtcome]
  obtain ⟨hshape, hinfo⟩ := Layout.template_eq_iff.1 hread
  exact ⟨_, leftOver, middle, hshape, hinfo, hconstants, htransferred, hbytes⟩

theorem outcome_contents_of_pieces {name : String} {layout : Layout} {info rest : Bytes} {parts : List Bytes}
    (h : runOn ((layout.template info).pieces.mapM (piece source)) before log = ((.ok parts, after), log'))
    (houtcome : (layout.template info).outcome = .ok rest) :
    outcome (contents source name layout info) (before, log) = .ok parts.flatten := by
  rw [outcome, contents, runOn_bind, runOn_template houtcome, h]
  cases rest <;> rfl

/-- Bytes are those of pieces, up to the indices in their slots, for which there are places, and they are read as such
by a layout. -/
structure Rewritten (layout : Layout) (pieces : List Piece) (place : Index → Index) (output : Bytes) : Prop where
  length : output.length = (pieces.flatMap Piece.bytes).length
  elsewhere : ∀ position, (∀ slot ∈ Piece.slotsFrom 0 pieces, ¬ Piece.Covers slot position) →
    output[position]? = (pieces.flatMap Piece.bytes)[position]?
  slots : ∀ slot ∈ Piece.slotsFrom 0 pieces,
    ((pieces.flatMap Piece.bytes).drop slot.1).take slot.2.bytes.length = slot.2.bytes ∧
      (output.drop slot.1).take slot.2.bytes.length = (slot.2.renamed place).bytes
  again : layout.template output = ⟨pieces.map (Piece.renamed place), .ok []⟩
  sameSlots : Piece.slotsFrom 0 (pieces.map (Piece.renamed place)) =
    (Piece.slotsFrom 0 pieces).map fun slot => (slot.1, slot.2.renamed place)

theorem rewritten_renamed {layout : Layout} {pieces : List Piece} (h : layout.Shape pieces) (place : Index → Index) :
    Rewritten layout pieces place ((pieces.map (Piece.renamed place)).flatMap Piece.bytes) where
  length := Piece.length_bytes_map_renamed place pieces
  elsewhere position houtside := by
    refine Piece.getElem?_bytes_renamed 0 fun slot hmem => ?_
    rw [Nat.zero_add]
    exact houtside slot hmem
  slots slot hmem := by
    have hrenamed : (slot.1, slot.2.renamed place) ∈ Piece.slotsFrom 0 (pieces.map (Piece.renamed place)) := by
      rw [Piece.slotsFrom_renamed]
      exact List.mem_map_of_mem hmem
    obtain ⟨skipped, hskipped, hold⟩ := @Piece.take_bytes_of_mem_slotsFrom 0 slot.1 slot.2 pieces hmem
    obtain ⟨skipped', hskipped', hnew⟩ := Piece.take_bytes_of_mem_slotsFrom hrenamed
    rw [Nat.zero_add] at hskipped hskipped'
    rw [Slot.length_bytes_renamed] at hnew
    exact ⟨hskipped ▸ hold, hskipped' ▸ hnew⟩
  again := Layout.template_eq_iff.2 ⟨h.renamed place, (List.append_nil _).symm⟩
  sameSlots := Piece.slotsFrom_renamed place 0 pieces

/-- Whatever the contents of an attribute of a known layout are, they are transferred exactly when they start with
pieces of the shape of the layout, and each index in these pieces, where only the name of a parameter may be zero, can
be given a place; there is only one way to cut them like this.  What comes out are the pieces with the places of the
indices in their slots, each of which leads to an entry that is alike, and it is read again as these pieces. -/
theorem contents_by_layout (hsource : source.Made) {state : State} (hreachable : state.1.Reachable source)
    (name : String) (layout : Layout) (info : Bytes) :
    ((∃ output, outcome (contents source name layout info) state = .ok output) ↔
      ∃ pieces rest places, layout.Shape pieces ∧ info = pieces.flatMap Piece.bytes ++ rest ∧
        outcome (constants source (pieces.flatMap Piece.indices)) state = .ok places) ∧
    ∀ output, outcome (contents source name layout info) state = .ok output →
      ∃ pieces rest place, layout.Shape pieces ∧ info = pieces.flatMap Piece.bytes ++ rest ∧
        (∀ pieces' rest', layout.Shape pieces' → info = pieces'.flatMap Piece.bytes ++ rest' →
          pieces' = pieces ∧ rest' = rest) ∧
        outcome (constants source (pieces.flatMap Piece.indices)) state =
          .ok ((pieces.flatMap Piece.indices).map place) ∧
        (∀ index ∈ pieces.flatMap Piece.indices, index ≠ 0 ∧
          source.Alike (following (contents source name layout info) state).1.target.pool index (place index)) ∧
        Rewritten layout pieces place output := by
  refine ⟨⟨?_, ?_⟩, fun output hok => ?_⟩
  · rintro ⟨output, hok⟩
    obtain ⟨pieces, rest, noted, hshape, hinfo, hconstants, -⟩ := pieces_of_contents (runOn_of_outcome hok)
    exact ⟨pieces, rest, _, hshape, hinfo, by rw [outcome, hconstants]⟩
  · rintro ⟨pieces, rest, places, hshape, hinfo, hplaces⟩
    have hread := Layout.template_eq_iff.2 ⟨hshape, hinfo⟩
    rcases pieces_of_constants (runOn_of_outcome hplaces) with ⟨parts, hparts⟩ | ⟨offset, index, hmem, -⟩
    · exact ⟨_, outcome_contents_of_pieces (by rw [hread]; exact hparts) (by rw [hread])⟩
    · exact absurd hmem (hshape.no_narrow offset index)
  · obtain ⟨pieces, rest, noted, hshape, hinfo, hconstants, htransferred, rfl⟩ :=
      pieces_of_contents (runOn_of_outcome hok)
    have hvalid := Steps.valid (Ensures.following (ensures_contents name layout info)).1 (hreachable.valid hsource)
    refine ⟨pieces, rest, _, hshape, hinfo, fun pieces' rest' hshape' hinfo' => ?_, by rw [outcome, hconstants],
      fun index hmem => ?_, rewritten_renamed hshape _⟩
    · -- What a layout reads is determined by the contents.
      have hsame := (Layout.template_eq_iff.2 ⟨hshape, hinfo⟩).symm.trans (Layout.template_eq_iff.2 ⟨hshape', hinfo'⟩)
      cases hsame
      exact ⟨rfl, rfl⟩
    · have halike := hvalid.alike index _ (htransferred index hmem)
      obtain ⟨_, hget⟩ := halike.source_get
      exact ⟨hsource.wellFormed.index_ne_zero hget, halike⟩

/-- A string in an array of default values is renamed, and the byte behind the array is left out. -/
theorem contents_by_layout_array :
    classPool.Made ∧ (into wordPool).Reachable classPool ∧
      outcome (contents classPool "AnnotationDefault" .annotationDefault [0x5B, 0, 1, 0x73, 0, 2, 0xFF])
        (into wordPool, #[]) = .ok [0x5B, 0, 1, 0x73, 0, 4] := by
  have hreachable : (into wordPool).Reachable classPool := reachable_into wordPool_made
  have htag : 's' ∈ "BCDFIJSZsc".toList := by decide
  have hstring : ∀ run ∈ [[Piece.fixed [0x73], .slot (.wide 2)]], Layout.ElementValue run :=
    List.forall_mem_singleton.2 (.constant htag 2)
  have hshape : Layout.annotationDefault.Shape [.fixed [0x5B], .fixed [0, 1], .fixed [0x73], .slot (.wide 2)] :=
    .array (.intro (by decide) hstring)
  obtain ⟨hsucceeds, houtput⟩ := @contents_by_layout _ classPool_made (into wordPool, #[]) hreachable
    "AnnotationDefault" .annotationDefault [0x5B, 0, 1, 0x73, 0, 2, 0xFF]
  obtain ⟨output, hok⟩ := hsucceeds.2 ⟨_, [0xFF], [4], hshape, by decide +kernel, outcome_constants_classPool⟩
  obtain ⟨pieces, rest, place, -, -, hunique, hplaces, -, hrewritten⟩ := houtput output hok
  obtain ⟨rfl, rfl⟩ := hunique _ [0xFF] hshape (by decide +kernel)
  have hplace : [place 2] = [4] := Except.ok.inj (hplaces.symm.trans outcome_constants_classPool)
  rw [List.singleton_inj] at hplace
  refine ⟨classPool_made, hreachable, ?_⟩
  rw [hok, (Layout.template_eq_iff.1 hrewritten.again).2]
  simp [Piece.renamed, Slot.renamed, Piece.bytes, Slot.bytes, hplace, u16Bytes, bigEndian]

end ClassGraft.TransferM
