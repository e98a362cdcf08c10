import MicroBasic.Main
import MicroBasic.Proofs.Binding
import MicroBasic.Proofs.CleanUp
import MicroBasic.Proofs.Decimals
import MicroBasic.Proofs.Entry
import MicroBasic.Proofs.Equality
import MicroBasic.Proofs.Halting.Runs
import MicroBasic.Proofs.InitialValues
import MicroBasic.Proofs.Locations
import MicroBasic.Proofs.Methods
import MicroBasic.Proofs.NumberTexts
import MicroBasic.Proofs.Overloads
import MicroBasic.Proofs.Paraphrases
import MicroBasic.Proofs.Parsing.Comments
import MicroBasic.Proofs.Parsing.Literals
import MicroBasic.Proofs.Parsing.Locating
import MicroBasic.Proofs.Parsing.Positions
import MicroBasic.Proofs.Parsing.Precedence
import MicroBasic.Proofs.Parsing.Rescanning
import MicroBasic.Proofs.Placement.Order
import MicroBasic.Proofs.Spelling
import MicroBasic.Proofs.Stores
import MicroBasic.Value.Json
