import Isojson.Library.JsonLayout
import Isojson.Loadable

/-!
# One document a line

With `OPT_APPEND_NEWLINE` and without `OPT_INDENT_2`, what `dumps` returns is one line: the break at its
end is the only one, since strings are written with their line breaks escaped.  A file to which such texts
are appended, one after the other, is therefore cut into them at its breaks, and each line is loaded as
what was dumped there (`dumps_lines`).
-/

namespace Isojson.Host

open Json

variable {Obj H : Type} [DecidableEq Obj] {a : Allocator} {h : Host Obj H}

/-- A call without indentation, and with a line break at the end, returned the text. -/
def WroteLine (h : Host Obj H) (a : Allocator) (text : Bytes) : Prop :=
  ∃ (s s' : St Obj H a) (hint fuel : ℕ) (args : List Obj) (kw : List (String × Obj)) (A : Arguments Obj),
    h.Ready s ∧ h.arguments s.world.heap args kw = .ok A ∧ hasOpt A.opts optAppendNewline = true ∧
      hasOpt A.opts optIndent2 = false ∧ h.dumps hint fuel args kw s = .ok text s'

/-- A line, without its break: the text of a tree, with numbers that are written. -/
def IsLine (fmt : Formats) (maxDepth : ℕ) (line : Bytes) : Prop :=
  10 ∉ line ∧ ∃ n : Node, n.depth ≤ maxDepth ∧ IsText line n ∧ IsText (line ++ [10]) n ∧
    ∀ t ∈ n.numbers, fmt.Writes t

lemma WroteLine.line {rank : ℕ} {text : Bytes} (hline : h.WroteLine a text) (hstill : h.Still a)
    (hfmt : h.fmt.WriteNumbers) (hrank : ∀ w o iface, (h.rt.view w o).body = .capsule (some iface) →
      iface.shape.length ≤ rank) :
    ∃ line, text = line ++ [10] ∧ IsLine h.fmt (MAX_DEPTH + rank) line := by
  obtain ⟨s, s', hint, fuel, args, kw, A, hs, hargs, hnewline, hindent, hdumps⟩ := hline
  obtain ⟨A', doc, n, hargs', hbytes, hn, hdepth, hnumbers⟩ :=
    exists_text_of_dumps hstill hs hfmt (hrank s.world.heap) hdumps
  obtain rfl : A = A' := Except.ok.inj (hargs.symm.trans hargs')
  have htext : IsText (dumpedText A.opts doc) n := isText_dumped hn
  have hderives := hn.derives false 0
  unfold dumpedText at hbytes htext
  rw [hindent, if_pos hnewline] at hbytes htext
  exact ⟨doc.render false 0, hbytes, hn.oneLine 0, n, hdepth,
    ⟨[], _, [], isWs_nil, hderives, isWs_nil, (List.append_nil _).symm⟩, htext, hnumbers⟩

/-- The lines that were written. -/
lemma exists_lines {rank : ℕ} (hstill : h.Still a) (hfmt : h.fmt.WriteNumbers)
    (hrank : ∀ w o iface, (h.rt.view w o).body = .capsule (some iface) → iface.shape.length ≤ rank)
    {texts : List Bytes} (htexts : ∀ text ∈ texts, h.WroteLine a text) :
    ∃ lines : List Bytes, texts = lines.map (· ++ [10]) ∧
      ∀ line ∈ lines, IsLine h.fmt (MAX_DEPTH + rank) line := by
  induction texts with
  | nil => exact ⟨[], rfl, fun line hline => absurd hline List.not_mem_nil⟩
  | cons text texts ih =>
      obtain ⟨htext, hrest⟩ := List.forall_mem_cons.mp htexts
      obtain ⟨line, rfl, hline⟩ := htext.line hstill hfmt hrank
      obtain ⟨lines, rfl, hlines⟩ := ih hrest
      exact ⟨line :: lines, rfl, List.forall_mem_cons.mpr ⟨hline, hlines⟩⟩

/-- **One document a line.**  Append the texts of any calls that returned, each with
`OPT_APPEND_NEWLINE` and without `OPT_INDENT_2`: of any documents, with any other options, and with any
heap.  Split what is there at its line breaks.  The pieces are the texts without their breaks, in order,
and an empty rest.  `loads` reads each piece, with or without its break, as one value, if it is below
4 GiB and no integer in it is beyond the range of doubles. -/
theorem dumps_lines {B : Type} {float : Bytes → Option UInt64} {maxDepth rank : ℕ} (hstill : h.Still a)
    (hfmt : h.fmt.ReadBy float)
    (hrank : ∀ w o iface, (h.rt.view w o).body = .capsule (some iface) → iface.shape.length ≤ rank)
    {texts : List Bytes} (htexts : ∀ text ∈ texts, h.WroteLine a text) {p : Decode.Parser B}
    {parse : Bytes → Except (Decode.ErrorType × ℕ) Decode.Tree} (hp : p.Reads parse)
    (hjson : Decode.ReadsJson parse float maxDepth) (hdepth : MAX_DEPTH + rank ≤ maxDepth) :
    ∃ lines : List Bytes, texts.flatten.splitOn 10 = lines ++ [[]] ∧ texts = lines.map (· ++ [10]) ∧
      ∀ line ∈ lines, (line ++ [10]).length < 2 ^ 32 → Decode.FitsWide float line →
        ∃ v, ∀ arg, Decode.Carries line arg ∨ Decode.Carries (line ++ [10]) arg →
          ∀ (during : List Decode.Act) (t : Decode.Thread B), t.Sound →
            Decode.Answers (.ok v) (Decode.loads p (Decode.runAll p during) arg) t := by
  obtain ⟨lines, rfl, hlines⟩ := exists_lines hstill hfmt.toWriteNumbers hrank htexts
  refine ⟨lines, splitOn_lines fun line hline => (hlines line hline).1, rfl, fun line hline hsize hwide => ?_⟩
  obtain ⟨-, n, hn, htext, hbroken, hnumbers⟩ := hlines line hline
  have hread := hfmt.numbers htext hwide hnumbers
  obtain ⟨v, hv⟩ := Decode.exists_loads_isText hp hjson htext hread (hn.trans hdepth)
  refine ⟨v, fun arg harg => ?_⟩
  obtain harg | harg := harg
  · refine hv line htext (lt_of_le_of_lt ?_ hsize) arg harg
    rw [List.length_append]
    exact Nat.le_add_right _ _
  · exact hv (line ++ [10]) hbroken hsize arg harg

/-- A list of `None` twice, and the option for a line break. -/
def nothingTwice : Snapshot ℕ where
  view
    | 0 => ⟨none, "list", .list [1, 1]⟩
    | 1 => ⟨none, "NoneType", .none⟩
    | 2 => ⟨none, "int", .int 1024⟩
    | _ => ⟨none, "object", .other⟩
  tupleItems _ := []
  pyNone := 1
  memory _ := 0
  answer _ := .raised 3

/-- An interpreter with these objects, and formatters that tell all doubles apart. -/
def nothingHost : Host ℕ Unit := { nothingTwice.host with fmt := Formats.fractions }

lemma nothingHost_still : nothingHost.Still Allocator.plain := nothingTwice.still _

lemma nothingHost_ready : nothingHost.Ready (nothingTwice.state ⟨none, none⟩) :=
  nothingTwice.ready _

lemma nothingHost_meaning : nothingHost.meaning (nothingTwice.state ⟨none, none⟩).world [0]
    [("option", 2)] = ⟨[], some (Bytes.ascii "[null,null]\n")⟩ := by
  rfl

/-- The list, dumped twice. -/
theorem dumps_lines_twice : ∃ N t, (∀ fuel, N ≤ fuel → nothingHost.dumps 0 fuel [0] [("option", 2)]
      (nothingTwice.state ⟨none, none⟩) = .ok (Bytes.ascii "[null,null]\n") t) ∧
    ∃ lines : List Bytes, (Bytes.ascii "[null,null]\n[null,null]\n").splitOn 10 = lines ++ [[]] ∧
      ∀ line ∈ lines, ∃ v, Decode.Answers (.ok v)
        (Decode.loads Decode.readerParser (Decode.runAll Decode.readerParser []) (.bytes line))
        Decode.freshThread := by
  obtain ⟨N, t, -, hrun⟩ := dumps_called nothingHost_still nothingHost_ready 0 [0] [("option", 2)]
  rw [nothingHost_meaning] at hrun
  have hline : nothingHost.WroteLine Allocator.plain (Bytes.ascii "[null,null]\n") :=
    ⟨_, t, 0, N, [0], [("option", 2)], ⟨0, none, 1024⟩, nothingHost_ready, rfl, rfl, rfl, hrun N le_rfl⟩
  have hrank : ∀ w o iface, (nothingHost.rt.view w o).body = .capsule (some iface) →
      iface.shape.length ≤ 0 := by
    intro w o iface hiface
    rcases o with _ | _ | _ | o <;> cases hiface
  obtain ⟨lines, hsplit, htexts, hloads⟩ := dumps_lines nothingHost_still Formats.fractions_readBy hrank
    (List.forall_mem_cons.mpr ⟨hline, List.forall_mem_singleton.mpr hline⟩) Decode.readerParser_reads
    (Decode.readTree_readsJson MAX_DEPTH) le_rfl
  refine ⟨N, t, hrun, lines, hsplit, fun line hmem => ?_⟩
  have hsize : (line ++ [10]).length = 12 := by
    have hmem' : line ++ [10] ∈ [Bytes.ascii "[null,null]\n", Bytes.ascii "[null,null]\n"] := by
      rw [htexts]
      exact List.mem_map_of_mem hmem
    rcases List.mem_pair.mp hmem' with h | h <;> rw [h] <;> rfl
  obtain ⟨v, hv⟩ := hloads line hmem (by rw [hsize]; norm_num) fun _ _ _ _ _ => rfl
  exact ⟨v, hv _ (.inl .bytes) [] Decode.freshThread Decode.fresh_freshThread.sound⟩

end Isojson.Host
