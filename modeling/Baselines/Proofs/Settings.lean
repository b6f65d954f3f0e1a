import Baselines.Proofs.Json.Records
import Baselines.Settings

/-!
# Settings by other names

Which keys a file of settings may have, for every text that is a JSON object. At the top level every
key has to be the name of a setting. The settings of the emitter are read as if those by other names
were not there.
-/

namespace Baselines.Settings

open Json
open Json.Reader (Ends Reads Steady Field Shape)

/-! ## 1. Fields -/

theorem steady_truth (room : Nat) : Steady (truth room) := by
  refine Reader.steady_value ?_ ?_ room
  · rintro j ⟨hb, ht⟩
    split
    next b => exact absurd rfl (hb b)
    next t => exact absurd rfl (ht t)
    next => exact Reader.gives_refuse _ _
  · intro j
    split
    next b => exact Reader.idle_pure b
    next t =>
      cases truth? t with
      | some b => exact Reader.idle_pure b
      | none => exact (Reader.gives_refuse _ _).idle
    next => exact (Reader.gives_refuse _ _).idle

theorem commandShape_steady : commandShape.Steady := by
  unfold Shape.Steady commandShape
  simp only [List.forall_mem_cons]
  refine ⟨fun _ _ => ?program, fun room _ => ?arguments, by simp⟩
  case program => exact (Reader.steady_text _).map _
  case arguments => exact (Steady.list (fun _ => Reader.steady_text _) room).map _

theorem steady_command (room : Nat) : Steady (command room) := commandShape_steady.record room _

theorem shape_steady : shape.Steady := by
  unfold Shape.Steady shape
  simp only [List.forall_mem_cons]
  refine ⟨fun _ _ => ?fixtures, fun _ _ => ?sources, fun room _ => ?mode, fun _ _ => ?runs,
    fun _ _ => ?jobs, fun _ _ => ?pattern, fun room _ => ?update, fun room _ => ?emitter, by simp⟩
  case fixtures => exact (Reader.steady_text _).option.map _
  case sources => exact (Reader.steady_text _).option.map _
  case mode => exact (Reader.steady_choice room modes).option.map _
  case runs => exact (Reader.steady_natBelow _ _).option.map _
  case jobs => exact (Reader.steady_natBelow _ _).option.map _
  case pattern => exact (Reader.steady_text _).option.map _
  case update => exact (steady_truth room).option.map _
  case emitter => exact (steady_command room).option.map _

/-! ## 2. Keys -/

/-- The names of the settings. -/
def keys : List Text :=
  ["fixturesDir", "sourcesDir", "mode", "determinismRuns", "jobs", "filter", "update", "emitter"]

/-- The names of the settings of the emitter. -/
def commandKeys : List Text := ["command", "args"]

theorem names_shape : shape.names = keys := rfl

theorem names_commandShape : commandShape.names = commandKeys := rfl

-- Whether a field of the emitter does not have another key than its settings.
def isKnown (e : Member) : Bool := e.key?.all commandKeys.contains

theorem isKnown_eq : isKnown = commandShape.knows := by
  funext e
  rw [isKnown, Shape.knows, names_commandShape]

theorem toOption_parse (lead gap after : Gap) {fs : List Member}
    (hfs : ∀ f ∈ fs, IsValue f.value) :
    (parse (lead ++ (objectText gap fs ++ after))).toOption =
      shape.made (Reader.deepest - 1) {} fs :=
  Reader.toOption_all (Reader.reads_record shape_steady 126 {} gap hfs) lead after

theorem reads_command (room : Nat) (inner : Gap) {es : List Member}
    (hes : ∀ e ∈ es, IsValue e.value) : Reads (Reader.option (command (room + 2)))
      (objectText inner es) ((commandShape.made (room + 1) ⟨[], []⟩ es).map some) := by
  have hread := Reader.reads_record commandShape_steady room ⟨[], []⟩ inner hes
  rw [objectText_spread] at hread ⊢
  exact hread.option rfl (by decide)

theorem find?_emitter : ∃ f, shape.fields.find? (·.name = "emitter".toList) = some f ∧
    ∀ room filled, f.fill room filled =
      (return { filled with emitter := ← Reader.option (command room) } : Reader Settings) :=
  ⟨_, rfl, fun _ _ => rfl⟩

/-- The settings of the emitter are filled as if its fields by other names were not there. -/
theorem alone_emitter (room : Nat) (inner : Gap) {es : List Member}
    (hes : ∀ e ∈ es, IsValue e.value) (filled : Settings) :
    let fill : Reader Settings :=
      return { filled with emitter := ← Reader.option (command (room + 2)) }
    Reader.alone fill (objectText inner (es.filter isKnown)) =
      Reader.alone fill (objectText inner es) := by
  have hknown : ∀ e ∈ es.filter isKnown, IsValue e.value :=
    fun e he => hes e (List.mem_of_mem_filter he)
  have hmade : commandShape.made (room + 1) ⟨[], []⟩ (es.filter isKnown) =
      commandShape.made (room + 1) ⟨[], []⟩ es := by
    rw [isKnown_eq]
    exact Shape.made_filter rfl es
  intro fill
  rw [((reads_command room inner hknown).map _).alone_eq, hmade,
    ((reads_command room inner hes).map _).alone_eq]

theorem parse_emitter (lead gap after inner : Gap) {pre post : List Member} {f : Member}
    {es : List Member} (hfs : ∀ g ∈ pre ++ f :: post, IsValue g.value)
    (hes : ∀ e ∈ es, IsValue e.value) (hkey : f.key? = some "emitter".toList)
    (hf : f.value = objectText inner es) :
    (parse (lead ++ (objectText gap (pre ++
      { f with value := objectText inner (es.filter isKnown) } :: post) ++ after))).toOption =
      (parse (lead ++ (objectText gap (pre ++ f :: post) ++ after))).toOption := by
  have hknown : IsValue (objectText inner (es.filter isKnown)) :=
    .object inner _ fun e he => hes e (List.mem_of_mem_filter he)
  have hall : ∀ g ∈ pre ++ { f with value := objectText inner (es.filter isKnown) } :: post,
      IsValue g.value := by
    intro g hg
    rcases List.mem_append.1 hg with hg | hg
    · exact hfs g (List.mem_append_left _ hg)
    · rcases List.mem_cons.1 hg with rfl | hg
      · exact hknown
      · exact hfs g (List.mem_append_right _ (List.mem_cons_of_mem _ hg))
  obtain ⟨field, hfind, hfill⟩ := find?_emitter
  rw [toOption_parse lead gap after hall, toOption_parse lead gap after hfs]
  refine Shape.made_replace hfind hkey ?_ (fun filled => ?_) pre post
  · rfl
  · rw [hf, hfill]
    exact alone_emitter 125 inner hes filled

/-- Which keys a file of settings may have. -/
theorem parse_keys (lead gap after : Gap) (fs : List Member) (hfs : ∀ f ∈ fs, IsValue f.value) :
    (∀ s, parse (lead ++ (objectText gap fs ++ after)) = .ok s →
      ∀ f ∈ fs, ∃ name ∈ keys, f.key? = some name) ∧
    ∀ pre f post inner es, fs = pre ++ f :: post → f.key? = some "emitter".toList →
      f.value = objectText inner es → (∀ e ∈ es, IsValue e.value) →
      (parse (lead ++ (objectText gap fs ++ after))).toOption =
        (parse (lead ++ (objectText gap (pre ++
          { f with value := objectText inner (es.filter isKnown) } :: post) ++
            after))).toOption := by
  refine ⟨fun s hs => ?_, ?_⟩
  · have hmade := toOption_parse lead gap after hfs
    rw [hs] at hmade
    have hnames := Shape.exists_key_of_made rfl hmade.symm
    rwa [names_shape] at hnames
  · rintro pre f post inner es rfl hkey hf hes
    exact (parse_emitter lead gap after inner hfs hes hkey hf).symm

-- A field without blanks and escapes.
def plainMember (name : Text) (h : name.all isPlain = true) (value : Text) : Member :=
  ⟨noGap, unescaped name h, noGap, noGap, value, noGap⟩

def emitterCommand : Member := plainMember "command" rfl (quoted (unescaped "tsz" rfl))

-- Arguments of the emitter by another name than `args`.
def misspelledArguments : Member :=
  plainMember "arg" rfl (arrayText noGap [⟨noGap, quoted (unescaped "x" rfl), noGap⟩])

-- The settings of an emitter, and no others.
def emitterOnly (es : List Member) : Member := plainMember "emitter" rfl (objectText noGap es)

theorem misspelled_valid : ∀ e ∈ [emitterCommand, misspelledArguments], IsValue e.value := by
  simp only [List.forall_mem_cons]
  refine ⟨.string _, .array _ _ ?_, by simp⟩
  simp only [List.forall_mem_cons]
  exact ⟨.string _, by simp⟩

theorem parse_keys_misspelled :
    let es := [emitterCommand, misspelledArguments]
    (∀ f ∈ [emitterOnly es], IsValue f.value ∧ ∃ name ∈ keys, f.key? = some name) ∧
    (parse (noGap ++ (objectText noGap [emitterOnly es] ++ noGap))).toOption =
      (parse (noGap ++ (objectText noGap [emitterOnly [emitterCommand]] ++ noGap))).toOption := by
  have hfs : ∀ f ∈ [emitterOnly [emitterCommand, misspelledArguments]], IsValue f.value := by
    simp only [List.forall_mem_cons]
    exact ⟨.object _ _ misspelled_valid, by simp⟩
  have hknown : [emitterCommand, misspelledArguments].filter isKnown = [emitterCommand] := by
    rw [List.filter_cons_of_pos (by decide +kernel), List.filter_cons_of_neg (by decide +kernel),
      List.filter_nil]
  obtain ⟨hkeys, hemitter⟩ := parse_keys noGap noGap noGap _ hfs
  have hsame := hemitter [] (emitterOnly [emitterCommand, misspelledArguments]) [] noGap _ rfl
    (by decide +kernel) rfl misspelled_valid
  rw [hknown] at hsame
  refine ⟨fun f hf => ⟨hfs f hf, ?_⟩, hsame⟩
  exact hkeys { emitter := some ⟨"tsz", []⟩ } (by decide +kernel) f hf

/-- A key of the emitter that is not known is passed over, and the arguments are none. -/
theorem parse_misspelled :
    let es := [emitterCommand, misspelledArguments]
    objectText noGap [emitterOnly es] =
      "\x7b\"emitter\":\x7b\"command\":\"tsz\",\"arg\":[\"x\"]\x7d\x7d".toList ∧
    (parse (objectText noGap [emitterOnly es])).toOption =
      some { emitter := some ⟨"tsz", []⟩ } ∧
    ∃ e ∈ es, ∀ name ∈ commandKeys, e.key? ≠ some name := by
  exact ⟨by decide +kernel, by decide +kernel, misspelledArguments, by simp, by decide +kernel⟩

end Baselines.Settings
