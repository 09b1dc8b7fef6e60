import MatrixFormula.Fault

/-!
# Regions of a source

A region lies in a source when its ends are places between the characters of the source, in
order. A text that stands in the source takes such a region, and the region quotes the text. A
diagnostic points into a source when all its regions lie in the source and there is one for each
of its labels. It quotes the source when its fault names the text that it points at.
-/

namespace MatrixFormula

/-- Whether an offset is that of a place between two characters, or of one of the two ends. -/
def Text.IsBoundary (source : Text) (offset : Nat) : Prop :=
  ∃ before behind, source = before ++ behind ∧ offset = before.byteSize

namespace Span

/-- The region lies in the source and cuts none of its characters. -/
structure Within (span : Span) (source : Text) : Prop where
  ordered : span.start ≤ span.stop
  bounded : span.stop ≤ source.byteSize
  starts : source.IsBoundary span.start
  stops : source.IsBoundary span.stop

/-- The text stands in the source, at the region. -/
def Quotes (span : Span) (source text : Text) : Prop :=
  ∃ before behind, source = before ++ text ++ behind ∧ span = ofText before.byteSize text

end Span

namespace Diagnostic

/-- Each region lies in the source, and there are as many as the fault has labels. -/
structure PointsInto (diagnostic : Diagnostic) (source : Text) : Prop where
  within : ∀ span ∈ diagnostic.spans, span.Within source
  labelled : diagnostic.spans.length = diagnostic.fault.labels.length

/-- What a fault names stands at the region of the diagnostic. A missing operand is missing at the
end, and text that is left over is named by its first character. -/
def Quotes (diagnostic : Diagnostic) (source : Text) : Prop :=
  match diagnostic.fault with
  | .unexpectedEnd => diagnostic.spans = [.point source.byteSize]
  | .trailingText found =>
      ∃ (before behind : Text) (char : Char), source = before ++ char :: behind ∧ found = [char] ∧
        diagnostic.spans = [⟨before.byteSize, source.byteSize⟩]
  | .unclosedParenthesis => ∃ span : Span, diagnostic.spans = [span] ∧ span.Quotes source ['(']
  | .unexpectedToken text | .unsupportedExponent text | .invalidNumber text
  | .undefinedVariable text _ | .missingCells text _ _ =>
      ∃ span : Span, diagnostic.spans = [span] ∧ span.Quotes source text
  | .arithmetic _ | .invalidDimensions _ _ => True

/-- The diagnostic points into the source, and what its fault names stands there. -/
structure Cites (diagnostic : Diagnostic) (source : Text) : Prop where
  points : diagnostic.PointsInto source
  quotes : diagnostic.Quotes source

end Diagnostic

variable {source text : Text} {span : Span} {offset : Nat}

/-- The offset of a place lies within the text. -/
theorem Text.IsBoundary.le (boundary : source.IsBoundary offset) : offset ≤ source.byteSize := by
  obtain ⟨before, behind, rfl, rfl⟩ := boundary
  rw [Text.byteSize_append]
  exact Nat.le_add_right ..

/-- The end of a text is a place of it. -/
theorem Text.isBoundary_byteSize (source : Text) : source.IsBoundary source.byteSize :=
  ⟨source, [], (List.append_nil source).symm, rfl⟩

/-- Text behind does not move a place. -/
theorem Text.IsBoundary.append_right {front : Text} (boundary : front.IsBoundary offset)
    (back : Text) : IsBoundary (front ++ back) offset := by
  obtain ⟨before, behind, rfl, rfl⟩ := boundary
  exact ⟨before, behind ++ back, List.append_assoc .., rfl⟩

/-- Text in front moves a place by its length. -/
theorem Text.IsBoundary.append_left {back : Text} (boundary : back.IsBoundary offset)
    (front : Text) : IsBoundary (front ++ back) (front.byteSize + offset) := by
  obtain ⟨before, behind, rfl, rfl⟩ := boundary
  exact ⟨front ++ before, behind, (List.append_assoc ..).symm, (byteSize_append ..).symm⟩

/-- A place in two texts that are joined lies in the first one or in the second one. -/
theorem Text.IsBoundary.of_append {front back : Text} (boundary : IsBoundary (front ++ back) offset) :
    front.IsBoundary offset ∨ ∃ place, back.IsBoundary place ∧ offset = front.byteSize + place := by
  obtain ⟨before, behind, parts, rfl⟩ := boundary
  rcases List.append_eq_append_iff.mp parts with ⟨between, rfl, rest⟩ | ⟨between, rfl, -⟩
  · exact .inr ⟨_, ⟨between, behind, rest, rfl⟩, byteSize_append ..⟩
  · exact .inl ⟨before, between, rfl, rfl⟩

/-- The region of a text that stands in the source lies in the source. -/
theorem Span.Quotes.within (quotes : span.Quotes source text) : span.Within source := by
  obtain ⟨before, behind, rfl, rfl⟩ := quotes
  have stops : (before ++ text ++ behind).IsBoundary (ofText before.byteSize text).stop :=
    ⟨before ++ text, behind, rfl, (Text.byteSize_append before text).symm⟩
  exact ⟨Nat.le_add_right .., stops.le, ⟨before, text ++ behind, List.append_assoc .., rfl⟩, stops⟩

/-- The end of the source is a region of it. -/
theorem Span.point_within (source : Text) : (Span.point source.byteSize).Within source :=
  ⟨Nat.le_refl _, Nat.le_refl _, source.isBoundary_byteSize, source.isBoundary_byteSize⟩

/-! ## Diagnostics with one region -/

/-- A diagnostic with one region points into the source when its region lies in the source and its
fault has one label. -/
theorem Fault.located_pointsInto {fault : Fault} (within : span.Within source)
    (labels : fault.labels.length = 1) : (fault.located span).PointsInto source :=
  ⟨by simpa [located] using within, labels.symm⟩

/-- A missing operand is reported at the end of the source. -/
theorem Fault.unexpectedEnd_cites (source : Text) :
    (unexpectedEnd.located (.point source.byteSize)).Cites source :=
  ⟨located_pointsInto (Span.point_within source) rfl, rfl⟩

/-- An unexpected token is reported where it stands. -/
theorem Fault.unexpectedToken_cites (quotes : span.Quotes source text) :
    ((unexpectedToken text).located span).Cites source :=
  ⟨located_pointsInto quotes.within rfl, span, rfl, quotes⟩

/-- A parenthesis that is left open is reported where it stands. -/
theorem Fault.unclosedParenthesis_cites (quotes : span.Quotes source ['(']) :
    (unclosedParenthesis.located span).Cites source :=
  ⟨located_pointsInto quotes.within rfl, span, rfl, quotes⟩

/-- Text that is left over is named by its first character, and its region goes to the end. -/
theorem Fault.trailingText_cites (quotes : span.Quotes source text) (nonempty : text ≠ []) :
    ((trailingText (text.take 1)).located ⟨span.start, source.byteSize⟩).Cites source := by
  obtain ⟨char, rest, rfl⟩ := List.exists_cons_of_ne_nil nonempty
  have within := quotes.within
  obtain ⟨before, behind, rfl, rfl⟩ := quotes
  have starts := within.starts
  exact ⟨located_pointsInto ⟨starts.le, Nat.le_refl _, starts, Text.isBoundary_byteSize _⟩ rfl,
    before, rest ++ behind, char, by simp, rfl, rfl⟩

end MatrixFormula
