import StarkReplay.Proofs.FriState
import StarkReplay.Proofs.Sections

/-!
The fields of the sections. Every section of a proof is a list of fields, each a scalar or an array
of scalars; a tree stands for a field under a relation between elements and the scalars that stand
for them. A list of trees is flattened to the flat forms of the fields it stands for, whatever
spelling its scalars have; under a relation that lets an element be spelled in one way only, the
trees are determined by the fields.
-/
namespace StarkReplay

namespace Flat

inductive Kind where
  | scalar
  | array

inductive Field where
  | scalar (v : Int)
  | array (vs : List Int)

/-- The scalar is encoded as the element. -/
def Encodes (v : Int) (t : Json) : Prop := scalar t = .ok v

/-- The scalar is the element itself, as an integer. -/
def Denotes (v : Int) (t : Json) : Prop := IsFelt v ∧ t = .int v

def Encodable (t : Json) : Prop := ∃ v, Encodes v t

def IsNumber (t : Json) : Prop := ∃ v, Denotes v t

theorem Denotes.encodes {v : Int} {t : Json} (h : Denotes v t) : Encodes v t := by
  obtain ⟨hv, rfl⟩ := h
  exact scalar_int hv

theorem rightUnique_denotes : Relator.RightUnique Denotes := by
  rintro v _ _ ⟨-, rfl⟩ ⟨-, rfl⟩
  rfl

/-- The tree is a scalar with `S`, or an array of such scalars. -/
def Kind.Fits (S : Json → Prop) : Kind → Json → Prop
  | .scalar, t => S t
  | .array, t => ∃ items, t = .arr items ∧ ∀ item ∈ items, S item

namespace Field

def kind : Field → Kind
  | scalar _ => .scalar
  | array _ => .array

def flat : Field → List Int
  | scalar v => [v]
  | array vs => Cursor.span vs

/-- The tree stands for the field. -/
def Matches (R : Int → Json → Prop) : Field → Json → Prop
  | scalar v, t => R v t
  | array vs, t => ∃ items, t = .arr items ∧ List.Forall₂ R vs items

variable {R : Int → Json → Prop}

theorem Matches.imp {R' : Int → Json → Prop} (hR : ∀ v t, R v t → R' v t) {f : Field} {t : Json}
    (h : f.Matches R t) : f.Matches R' t := by
  cases f with
  | scalar v => exact hR v t h
  | array vs =>
    obtain ⟨items, rfl, h⟩ := h
    exact ⟨items, rfl, h.imp hR⟩

theorem Matches.fits {f : Field} {t : Json} (h : f.Matches R t) :
    f.kind.Fits (fun t => ∃ v, R v t) t := by
  cases f with
  | scalar v => exact ⟨v, h⟩
  | array vs =>
    obtain ⟨items, rfl, h⟩ := h
    refine ⟨items, rfl, ?_⟩
    induction h with
    | nil => nofun
    | cons hv _ ih => exact List.forall_mem_cons.2 ⟨⟨_, hv⟩, ih⟩

theorem exists_matches {k : Kind} {t : Json} (h : k.Fits (fun t => ∃ v, R v t) t) :
    ∃ f : Field, f.kind = k ∧ f.Matches R t := by
  cases k with
  | scalar =>
    obtain ⟨v, hv⟩ := h
    exact ⟨scalar v, rfl, hv⟩
  | array =>
    obtain ⟨items, rfl, h⟩ := h
    obtain ⟨vs, hvs⟩ : ∃ vs, List.Forall₂ R vs items := by
      induction items with
      | nil => exact ⟨[], .nil⟩
      | cons item items ih =>
        obtain ⟨⟨v, hv⟩, hitems⟩ := List.forall_mem_cons.1 h
        obtain ⟨vs, hvs⟩ := ih hitems
        exact ⟨v :: vs, .cons hv hvs⟩
    exact ⟨array vs, rfl, items, rfl, hvs⟩

theorem Matches.flatten {f : Field} {t : Json} (h : f.Matches Encodes t) :
    Flat.flatten t = .ok f.flat := by
  cases f with
  | scalar v => exact flatten_scalar h
  | array vs =>
    obtain ⟨items, rfl, h⟩ := h
    rw [Flat.flatten, flattenItems_scalars h, ← h.length_eq]
    rfl

theorem rightUnique_matches (hR : Relator.RightUnique R) :
    Relator.RightUnique (Matches R) := by
  intro f t u ht hu
  cases f with
  | scalar v => exact hR ht hu
  | array vs =>
    obtain ⟨items, rfl, ht⟩ := ht
    obtain ⟨items', rfl, hu⟩ := hu
    rw [List.right_unique_forall₂' hR ht hu]

theorem exists_denotes {f : Field} (h : Felts f.flat) : ∃ t, f.Matches Denotes t := by
  cases f with
  | scalar v => exact ⟨.int v, (felts_cons.1 h).1, rfl⟩
  | array vs =>
    refine ⟨Flat.array vs, _, rfl, ?_⟩
    refine List.forall₂_map_right_iff.2 (List.forall₂_same.2 fun v hv => ?_)
    exact ⟨(felts_span.1 h).2 v hv, rfl⟩

end Field

/-! ## Lists of trees -/

variable {R : Int → Json → Prop} {fields : List Field} {trees : List Json}

theorem fits_of_matches (h : List.Forall₂ (Field.Matches R) fields trees) :
    List.Forall₂ (Kind.Fits fun t => ∃ v, R v t) (fields.map Field.kind) trees :=
  List.forall₂_map_left_iff.2 (h.imp fun _ _ => Field.Matches.fits)

theorem exists_fields {kinds : List Kind}
    (h : List.Forall₂ (Kind.Fits fun t => ∃ v, R v t) kinds trees) :
    ∃ fields, fields.map Field.kind = kinds ∧ List.Forall₂ (Field.Matches R) fields trees := by
  induction h with
  | nil => exact ⟨[], rfl, .nil⟩
  | cons ht _ ih =>
    obtain ⟨f, rfl, hf⟩ := Field.exists_matches ht
    obtain ⟨fields, rfl, hfields⟩ := ih
    exact ⟨f :: fields, rfl, .cons hf hfields⟩

theorem flattenItems_of_matches (h : List.Forall₂ (Field.Matches Encodes) fields trees) :
    flattenItems trees = .ok (fields.flatMap Field.flat) := by
  induction h with
  | nil => rfl
  | cons ht _ ih => exact flattenItems_cons ht.flatten ih

theorem exists_trees (h : Felts (fields.flatMap Field.flat)) :
    ∃ trees, List.Forall₂ (Field.Matches Denotes) fields trees := by
  induction fields with
  | nil => exact ⟨[], .nil⟩
  | cons f fields ih =>
    obtain ⟨hf, hfields⟩ := felts_append.1 h
    obtain ⟨t, ht⟩ := Field.exists_denotes hf
    obtain ⟨trees, htrees⟩ := ih hfields
    exact ⟨t :: trees, .cons ht htrees⟩

end Flat

/-! ## The fields of a section -/

open Flat (Field Kind)

def Config.fields (c : Config) : List Field :=
  [.scalar c.logTraceDomain, .scalar c.logCosets, .scalar c.queries, .scalar c.workBits,
    .array c.stepSizes, .scalar c.logLastLayer]

def PublicInput.fields (p : PublicInput) : List Field :=
  [.scalar p.logSteps, .scalar p.rangeCheckMin, .scalar p.rangeCheckMax, .scalar p.layout,
    .array p.memory]

def Commitments.fields (c : Commitments) : List Field :=
  [.scalar c.original, .scalar c.interaction, .scalar c.composition, .array c.oodsValues,
    .array c.friLayers, .array c.coefficients, .scalar c.nonce]

def Opening.fields (o : Opening) : List Field := [.array o.leaves, .array o.authentications]

theorem Config.flatMap_fields (c : Config) : c.fields.flatMap Field.flat = c.flat := by
  simp [fields, flat, Field.flat]

theorem PublicInput.flatMap_fields (p : PublicInput) : p.fields.flatMap Field.flat = p.flat := by
  simp [fields, flat, Field.flat]

theorem Commitments.flatMap_fields (c : Commitments) : c.fields.flatMap Field.flat = c.flat := by
  simp [fields, flat, Field.flat]

theorem Opening.flatMap_fields (o : Opening) : o.fields.flatMap Field.flat = o.flat := by
  simp [fields, flat, Field.flat]

variable {fs : List Field}

theorem Config.exists_eq_fields
    (h : fs.map Field.kind = [.scalar, .scalar, .scalar, .scalar, .array, .scalar]) :
    ∃ c, fields c = fs :=
  match fs, h with
  | [.scalar _, .scalar _, .scalar _, .scalar _, .array _, .scalar _], _ =>
    ⟨⟨_, _, _, _, _, _⟩, rfl⟩

theorem PublicInput.exists_eq_fields
    (h : fs.map Field.kind = [.scalar, .scalar, .scalar, .scalar, .array]) : ∃ p, fields p = fs :=
  match fs, h with
  | [.scalar _, .scalar _, .scalar _, .scalar _, .array _], _ => ⟨⟨_, _, _, _, _⟩, rfl⟩

theorem Commitments.exists_eq_fields
    (h : fs.map Field.kind = [.scalar, .scalar, .scalar, .array, .array, .array, .scalar]) :
    ∃ c, fields c = fs :=
  match fs, h with
  | [.scalar _, .scalar _, .scalar _, .array _, .array _, .array _, .scalar _], _ =>
    ⟨⟨_, _, _, _, _, _, _⟩, rfl⟩

theorem Opening.exists_eq_fields (h : fs.map Field.kind = [.array, .array]) :
    ∃ o, fields o = fs :=
  match fs, h with
  | [.array _, .array _], _ => ⟨⟨_, _⟩, rfl⟩

end StarkReplay
