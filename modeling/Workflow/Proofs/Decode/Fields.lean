import Workflow.Proofs.Decode.Routes

/-!
# Records field by field

A record that is read from a value takes its members in the order of their keys. It can as well take
its fields in declared order and look up the member of each: which field takes which member does not
depend on the order, and neither does the draft that comes of it.
-/

namespace Workflow

open Json (memberNode)

/-- Enters the member of the field's name, if there is one. -/
def Field.enter {δ : Type} (members : Dict Json) (draft : δ) (field : Field δ) : Except DecodeError δ :=
  match members.get? field.name with
  | some value => field.fill draft .value value.node
  | none => .ok draft

namespace Record

variable {δ α : Type} {fields rest : List (Field δ)} {members : Dict Json} {draft : δ}

/-- Whether the fields are independent of each other and all are open to begin with. -/
structure IsSimple (record : Record δ α) : Prop where
  apart : record.fields.Pairwise Field.Apart
  names : (record.fields.map (·.name)).Nodup
  blank : ∀ field ∈ record.fields, field.filled record.blank = false

theorem find?_of_mem (hnames : (fields.map (·.name)).Nodup) {field : Field δ} (hfield : field ∈ fields) :
    (fields.find? fun other => other.name == field.name) = some field := by
  induction fields with
  | nil => cases hfield
  | cons head rest ih =>
      rw [List.map_cons, List.nodup_cons] at hnames
      rcases List.mem_cons.mp hfield with rfl | hmem
      · exact List.find?_cons_of_pos (beq_self_eq_true _)
      · have hne : head.name ≠ field.name := fun heq =>
          hnames.1 (heq ▸ List.mem_map.mpr ⟨field, hmem, rfl⟩)
        rw [List.find?_cons_of_neg (by simpa using hne), ih hnames.2 hmem]

/-- Members of other names are passed over. -/
theorem foldlM_fillMember_unknown {entries : List (String × Json)}
    (hunknown : ∀ entry ∈ entries, (fields.find? fun field => field.name == entry.1) = none) :
    (entries.map memberNode).foldlM (fillMember fields .value) draft = .ok draft := by
  induction entries with
  | nil => rfl
  | cons entry rest ih =>
      have hhead : fillMember fields .value draft (memberNode entry) = .ok draft :=
        fillMember_unknown (hunknown entry List.mem_cons_self) (Decoder.json_ofJson entry.2)
      rw [List.map_cons, List.foldlM_cons, hhead]
      exact ih fun other hmem => hunknown other (List.mem_cons_of_mem _ hmem)

theorem foldlM_enter_erase {key : String} (hother : ∀ field ∈ rest, field.name ≠ key) :
    rest.foldlM (Field.enter (members.erase key)) draft = rest.foldlM (Field.enter members) draft := by
  induction rest generalizing draft with
  | nil => rfl
  | cons field rest ih =>
      have hhead : Field.enter (members.erase key) draft field = Field.enter members draft field := by
        unfold Field.enter
        rw [Dict.get?_erase, if_neg (hother field List.mem_cons_self)]
      rw [List.foldlM_cons, List.foldlM_cons, hhead]
      exact bind_congr fun _ => ih fun other hmem => hother other (List.mem_cons_of_mem _ hmem)

/-- Of the fields that are left, the first one takes its member out of its place among the others. -/
theorem foldlM_fillMember_concur (hapart : fields.Pairwise Field.Apart)
    (hnames : (fields.map (·.name)).Nodup) (hrest : rest.Sublist fields)
    (hopen : ∀ field ∈ rest, field.filled draft = false)
    (hmembers : ∀ field ∈ fields, ∀ value, members.get? field.name = some value → field ∈ rest) :
    Concur (· = ·) ((members.entries.map memberNode).foldlM (fillMember fields .value) draft)
      (rest.foldlM (Field.enter members) draft) := by
  induction rest generalizing members draft with
  | nil =>
      rw [foldlM_fillMember_unknown]
      · exact .ok rfl
      · rintro ⟨key, value⟩ hentry
        rw [List.find?_eq_none]
        intro field hfield hname
        rw [beq_iff_eq] at hname
        subst hname
        cases hmembers field hfield value (Dict.get?_eq_some_iff.mpr hentry)
  | cons field rest ih =>
      have hfield := hrest.subset List.mem_cons_self
      have hsublist := (List.sublist_cons_self field rest).trans hrest
      have hopenRest : ∀ other ∈ rest, other.filled draft = false :=
        fun other hmem => hopen other (List.mem_cons_of_mem _ hmem)
      rw [List.foldlM_cons]
      cases hget : members.get? field.name with
      | none =>
          have hhead : Field.enter members draft field = .ok draft := by
            unfold Field.enter
            rw [hget]
          rw [hhead]
          refine ih hsublist hopenRest fun other hother value hvalue => ?_
          rcases List.mem_cons.mp (hmembers other hother value hvalue) with rfl | hmem
          · cases hget.symm.trans hvalue
          · exact hmem
      | some value =>
          have hhead : Field.enter members draft field = field.fill draft .value value.node := by
            unfold Field.enter
            rw [hget]
          have hsteps : (members.entries.map memberNode).Pairwise
              (Concur.Interchange (fillMember fields .value)) := by
            rw [List.pairwise_map]
            exact (List.pairwise_map.mp (List.nodup_iff_pairwise_ne.mp members.keys_nodup)).imp
              fun hne => fillMember_interchange hapart _ _ hne
          have hnamesRest : ∀ other ∈ rest, other.name ≠ field.name := by
            intro other hmem heq
            have hnodup := hnames.sublist (hrest.map _)
            rw [List.map_cons, List.nodup_cons] at hnodup
            exact hnodup.1 (heq ▸ List.mem_map.mpr ⟨other, hmem, rfl⟩)
          have hfill : fillMember fields .value draft (memberNode (field.name, value)) =
              field.fill draft .value value.node :=
            fillMember_fill (find?_of_mem hnames hfield) (hopen field List.mem_cons_self)
          have hfront := (Dict.perm_cons_erase hget).map memberNode
          refine (Concur.foldlM_of_perm hfront hsteps draft).trans ?_
          rw [List.map_cons, List.foldlM_cons, hfill, hhead]
          cases hfilled : field.fill draft .value value.node with
          | error error => exact .error error error
          | ok filled =>
              have hopenFilled : ∀ other ∈ rest, other.filled filled = false := fun other hmem =>
                ((List.rel_of_pairwise_cons (hapart.sublist hrest) hmem).left hfilled).trans
                  (hopenRest other hmem)
              have herased := @ih (members.erase field.name) filled hsublist hopenFilled ?_
              · rwa [foldlM_enter_erase hnamesRest] at herased
              · intro other hother value hvalue
                rw [Dict.get?_erase] at hvalue
                split at hvalue
                · cases hvalue
                · rename_i hne
                  rcases List.mem_cons.mp (hmembers other hother value hvalue) with rfl | hmem
                  · exact absurd rfl hne
                  · exact hmem

/-- A record is read from an object field by field. -/
theorem IsSimple.ofJson_object {record : Record δ α} (h : record.IsSimple) (members : Dict Json) :
    Concur (· = ·) (record.decode.ofJson (.object members))
      (record.fields.foldlM (Field.enter members) record.blank >>= record.finish) := by
  have horigin : Origin.value.enter = .ok .value := rfl
  rw [Decoder.ofJson, Json.node_object, decode_object horigin rfl, fillMembers_eq_foldlM]
  refine (foldlM_fillMember_concur h.apart h.names (List.Sublist.refl _) h.blank
    fun field hfield _ _ => hfield).bind ?_
  rintro draft _ rfl
  exact .refl _

/-- A member that is no field of a record makes no difference to it. -/
theorem IsSimple.ofJson_erase {record : Record δ α} (h : record.IsSimple) (members : Dict Json)
    {key : String} (hother : ∀ field ∈ record.fields, field.name ≠ key) :
    Concur (· = ·) (record.decode.ofJson (.object (members.erase key)))
      (record.decode.ofJson (.object members)) := by
  have herased := h.ofJson_object (members.erase key)
  rw [foldlM_enter_erase hother] at herased
  exact herased.trans (h.ofJson_object members).symm

end Record

end Workflow
